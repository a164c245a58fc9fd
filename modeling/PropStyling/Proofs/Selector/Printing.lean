import PropStyling.Proofs.Number.Notation
import PropStyling.Proofs.Selector.FirstCutting

/-! # Printed selectors

A selector whose conditions and target are denoted by their own texts is printed with
a cutting that reads it. It is parsed back exactly when that cutting is the first one
of the printed text, so only the cuts at other brackets can get in the way.
-/
namespace PropStyling
open Pattern

theorem Condition.chars_of_truthy (prop : String) :
    chars ⟨prop, .truthy⟩ = '[' :: (prop.toList ++ [']']) := by
  simp [chars, hasValue]

theorem Condition.chars_of_ne_truthy {k : Condition} (h : k.expected ≠ .truthy) :
    k.chars = '[' :: (k.prop.toList ++ '=' :: (k.expected.chars ++ [']'])) := by
  simp [chars, hasValue, h]

/-- A name and a literal side by side in brackets denote their condition. -/
theorem Condition.denoted_of_literal {k : Condition} {l : Literal} (hp : k.prop.toList ∈ name)
    (hl : l.WellFormed) (hc : l.chars = k.expected.chars) (he : l.expected? = some k.expected) :
    Denoted k.chars k := by
  have hn : [] ∈ blanks := Language.nil_mem_kstar _
  have ht : k.expected ≠ .truthy := by
    intro ht
    rw [ht] at hc
    exact Literal.chars_ne_nil hl hc
  have hm : l.chars ∈ literal := Literal.mem_literal_iff.mpr ⟨l, hl, rfl⟩
  have hden := Denoted.valued (.valued hn hp hn hn hm hn) ((Literal.Denotes.iff_expected? hl).mpr he)
  rw [String.ofList_toList, hc] at hden
  rw [chars_of_ne_truthy ht]
  exact hden

theorem Condition.denoted_of_truthy {k : Condition} (hp : k.prop.toList ∈ name)
    (he : k.expected = .truthy) : Denoted k.chars k := by
  have hn : [] ∈ blanks := Language.nil_mem_kstar _
  have hden := Denoted.bare (.bare hn hp hn)
  obtain ⟨prop, e⟩ := k
  cases he
  rw [String.ofList_toList] at hden
  rw [chars_of_truthy]
  exact hden

def Expected.Printable : Expected → Prop
  | .truthy => True
  | .bool _ => True
  | .number (.integer n) => 0 ≤ n.val
  | .number (.float _) => False
  | .string s => s ≠ ""

instance : DecidablePred Expected.Printable
  | .truthy => inferInstanceAs (Decidable True)
  | .bool _ => inferInstanceAs (Decidable True)
  | .number (.integer n) => inferInstanceAs (Decidable (0 ≤ n.val))
  | .number (.float _) => inferInstanceAs (Decidable False)
  | .string s => inferInstanceAs (Decidable (s ≠ ""))

namespace Expected

def Literally (e : Expected) : Prop :=
  ∃ l : Literal, l.WellFormed ∧ l.chars = e.chars ∧ l.expected? = some e

theorem literally_bool (b : Bool) : Literally (.bool b) := by
  cases b with
  | false => exact (Literal.Denotes.isFalse (by decide)).exists_literal
  | true => exact (Literal.Denotes.isTrue (by decide)).exists_literal

theorem literally_integer {n : Integer64} (h : 0 ≤ n.val) :
    Literally (.number (.integer n)) := by
  have hc : n.chars = Nat.toDigits 10 n.val.natAbs := by
    rw [Integer64.chars, if_neg (Int.not_lt.mpr h)]
  have hd : n.chars ∈ digits := by
    rw [hc, mem_digits]
    exact ⟨Nat.toDigits_ne_nil, List.all_eq_true.mpr fun c hc =>
      Nat.isDigit_of_mem_toDigits (by decide) (by decide) hc⟩
  have hv : (Nat.ofDigitChars 10 n.chars 0 : ℤ) = n.val := by
    rw [hc, Nat.ofDigitChars_ten_toDigits]
    exact Int.natAbs_of_nonneg h
  exact (Literal.Denotes.integer hd hv).exists_literal

theorem literally_string {s : String} (h : s ≠ "") : Literally (.string s) := by
  have hn : s.toList ≠ [] := fun he => h (String.toList_eq_nil_iff.mp he)
  have hd := Literal.Denotes.quoted hn rfl
  rw [← Text.escapeQuotes_eq_flatMap, String.ofList_toList] at hd
  exact hd.exists_literal

theorem Printable.literally {e : Expected} (h : e.Printable) (ht : e ≠ .truthy) :
    e.Literally := by
  cases e with
  | truthy => exact absurd rfl ht
  | bool b => exact literally_bool b
  | number n =>
    cases n with
    | integer n => exact literally_integer h
    | float x => exact h.elim
  | string s => exact literally_string h

end Expected

/-- A condition on a name with a printable expectation is denoted by its own text. -/
theorem Condition.denoted_chars {k : Condition} (hp : k.prop.toList ∈ name)
    (he : k.expected.Printable) : Denoted k.chars k := by
  by_cases ht : k.expected = .truthy
  · exact denoted_of_truthy hp ht
  · obtain ⟨l, hl, hc, hle⟩ := he.literally ht
    exact denoted_of_literal hp hl hc hle

/-- A printed value other than a text is made of inner characters. -/
theorem Expected.all_isInner_chars {e : Expected} (hs : ∀ v, e ≠ .string v) :
    e.chars.all Text.isInner = true := by
  cases e with
  | truthy => rfl
  | bool b => cases b <;> decide
  | number n =>
    cases n with
    | integer n =>
      have hd := Binary64.all_isInner_of_digits (Binary64.all_isDigit_toDigits n.val.natAbs)
      rw [chars, Number.chars, Integer64.chars]
      split
      · rw [List.all_cons, hd]
        decide
      · exact hd
    | float x => exact x.all_isInner_chars
  | string v => exact absurd rfl (hs v)

/-- Without a text in it, a printed condition holds its brackets and inner characters only. -/
theorem Condition.chars_plain {k : Condition} (hp : k.prop.toList ∈ name)
    (hs : ∀ v, k.expected ≠ .string v) :
    ∃ inner, inner.all Text.isInner = true ∧ k.chars = '[' :: (inner ++ [']']) := by
  have hn := all_isInner_name hp
  by_cases ht : k.expected = .truthy
  · obtain ⟨prop, e⟩ := k
    cases ht
    exact ⟨prop.toList, hn, chars_of_truthy prop⟩
  · refine ⟨k.prop.toList ++ '=' :: k.expected.chars, ?_, by simp [chars_of_ne_truthy ht]⟩
    rw [List.all_append, List.all_cons, Bool.and_eq_true, Bool.and_eq_true]
    exact ⟨hn, by decide, Expected.all_isInner_chars hs⟩

/-- With a text in it, a printed condition is an opening and the text between quotes. -/
theorem Condition.chars_quoted {k : Condition} {v : String} (hp : k.prop.toList ∈ name)
    (hv : k.expected = .string v) : Opening (k.prop.toList ++ ['=']) ∧ k.chars =
      '[' :: ((k.prop.toList ++ ['=']) ++ '"' :: (Text.escapeQuotes v.toList ++ '"' :: [']'])) := by
  have hn : [] ∈ blanks := Language.nil_mem_kstar _
  refine ⟨⟨[], hn, _, hp, [], hn, [], hn, rfl⟩, ?_⟩
  rw [chars_of_ne_truthy (by rw [hv]; exact Expected.noConfusion), hv]
  simp [Expected.chars]

theorem Condition.Denoted.mem_bracket {g : List Char} {k : Condition} (h : Denoted g k) :
    g ∈ bracket := by
  cases h with
  | bare h => exact Pattern.mem_bracket.mpr ⟨_, _, h⟩
  | valued h he => exact Pattern.mem_bracket.mpr ⟨_, _, h⟩

/-- Each condition and the target are denoted by their own texts. -/
structure Selector.Legible (s : Selector) : Prop where
  conditions : ∀ k ∈ s.conditions, Condition.Denoted k.chars k
  suffix : s.target.chars ∈ Pattern.suffix
  target : Target.ofName s.target.name = s.target

namespace Selector

variable {s : Selector}

def printedSuffix (s : Selector) : Option (List Char) :=
  if s.target.isRoot && !s.isUnconditional then none else some s.target.chars

def printed (s : Selector) (h : s.Legible) : Cutting where
  brackets := s.conditions.map Condition.chars
  suffix := s.printedSuffix
  mem_bracket := by
    intro g hg
    obtain ⟨k, hk, rfl⟩ := List.mem_map.mp hg
    exact (h.conditions k hk).mem_bracket
  mem_suffix := by
    intro t ht
    rw [printedSuffix] at ht
    split at ht
    · cases ht
    · cases ht
      exact h.suffix

theorem printedSuffix_of_root (ht : s.target = .root) (hk : s.conditions ≠ []) :
    s.printedSuffix = none := by
  rw [printedSuffix, ht, isUnconditional, List.isEmpty_eq_false_iff.mpr hk]
  rfl

theorem printedSuffix_of_unconditional (hk : s.conditions = []) :
    s.printedSuffix = some s.target.chars := by
  rw [printedSuffix, isUnconditional, hk, List.isEmpty_nil, Bool.not_true, Bool.and_false]
  rfl

theorem printedSuffix_of_named {n : String} (ht : s.target = .named n) :
    s.printedSuffix = some s.target.chars := by
  rw [printedSuffix, ht]
  rfl

theorem chars_eq_flatten (s : Selector) :
    s.chars = (s.conditions.map Condition.chars ++ s.printedSuffix.toList).flatten := by
  have hs : s.printedSuffix.toList.flatten =
      if s.target.isRoot && !s.isUnconditional then [] else s.target.chars := by
    rw [printedSuffix]
    split
    · rfl
    · exact List.flatten_singleton
  rw [chars, List.flatten_append, hs, List.flatMap_def]

theorem text_printed (h : s.Legible) : (s.printed h).text = s.chars :=
  s.chars_eq_flatten.symm

/-- Without conditions there are no brackets to cut elsewhere. -/
theorem first_printed_of_unconditional (h : s.Legible) (hk : s.conditions = []) :
    (s.printed h).First s.chars := by
  rw [← text_printed h]
  apply Cutting.first_of_starts
  intro g hg
  have hg : g ∈ s.conditions.map Condition.chars := hg
  rw [hk] at hg
  cases hg

/-- The printed cutting reads the selector. -/
theorem reads_printed (h : s.Legible) : (s.printed h).Reads s := by
  constructor
  · exact List.forall₂_map_left_iff.mpr (List.forall₂_same.mpr h.conditions)
  · have hsome : s.printedSuffix = some s.target.chars → (s.printed h).target = s.target := by
      intro hs
      have hd : s.target.chars.drop 2 = s.target.name.toList := rfl
      rw [Cutting.target_of_some hs, hd, String.ofList_toList, h.target]
    by_cases hk : s.conditions = []
    · exact (hsome (printedSuffix_of_unconditional hk)).symm
    · cases ht : s.target with
      | root => exact (Cutting.target_of_none (printedSuffix_of_root ht hk)).symm
      | named n => exact ht ▸ (hsome (printedSuffix_of_named ht)).symm

theorem chars_ne_nil (s : Selector) : s.chars ≠ [] := by
  rw [chars]
  cases hk : s.conditions with
  | nil => simp [isUnconditional, hk, Target.chars]
  | cons k ks => simp [Condition.chars]

/-- A printed selector has no outer blanks. -/
theorem trim_text (h : s.target.chars ∈ Pattern.suffix) : Text.trim s.text.toList = s.chars := by
  rw [text, String.toList_ofList]
  apply Text.trim_eq_self
  rw [chars_eq_flatten]
  apply Text.bounded_flatten
  intro t ht
  rcases List.mem_append.mp ht with ht | ht
  · obtain ⟨k, -, rfl⟩ := List.mem_map.mp ht
    exact ⟨List.cons_ne_nil _ _, .brackets _⟩
  · have hs : t = s.target.chars := by
      rw [printedSuffix] at ht
      split at ht
      · cases ht
      · exact List.mem_singleton.mp ht
    exact hs ▸ bounded_suffix h

/-- A legible selector is parsed back when it is cut as it was printed. -/
theorem parse_text_of_first (h : s.Legible) (hf : (s.printed h).First s.chars) :
    parse s.text = .ok s := by
  have ht := trim_text h.suffix
  rw [← ht] at hf
  exact ((parse_of_first hf (ht ▸ s.chars_ne_nil)).1 s).mpr (reads_printed h)

end Selector

end PropStyling
