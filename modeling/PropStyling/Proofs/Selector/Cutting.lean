import PropStyling.Proofs.Selector.Literals
import PropStyling.Proofs.Selector.Shape
import PropStyling.Selector.Parser

/-! # Cuttings

A cutting divides a text into brackets and at most one suffix after them. A text may
have several cuttings, but at most one with a suffix and at most one without. The
conditions and the target of a cutting are read off its segments, unless one of its
literals stands for no value.
-/
namespace PropStyling
open scoped Computability

namespace Pattern

theorem mem_suffix {s : List Char} :
    s ∈ suffix ↔
      ∃ name, name ≠ [] ∧ name.all Text.isTargetChar = true ∧ s = ':' :: ':' :: name := by
  rw [suffix, mul_assoc]
  constructor
  · intro h
    match s with
    | [] => exact (nil_mem_char_mul.mp h).elim
    | [c] => exact (nil_mem_char_mul.mp (cons_mem_char_mul.mp h).2).elim
    | c :: d :: name =>
      obtain ⟨rfl, hd⟩ := cons_mem_char_mul.mp h
      obtain ⟨rfl, hn⟩ := cons_mem_char_mul.mp hd
      exact ⟨name, (mem_plus_one.mp hn).1, (mem_plus_one.mp hn).2, rfl⟩
  · rintro ⟨name, hn, ha, rfl⟩
    rw [cons_mem_char_mul, cons_mem_char_mul]
    exact ⟨rfl, rfl, mem_plus_one.mpr ⟨hn, ha⟩⟩

theorem bounded_suffix {s : List Char} (h : s ∈ suffix) : s ≠ [] ∧ Text.Bounded s := by
  obtain ⟨name, -, hall, rfl⟩ := mem_suffix.mp h
  refine ⟨List.cons_ne_nil _ _, Text.bounded_of_all fun c hc => ?_⟩
  have hcolon : Text.isBlank ':' = false := by decide
  rcases List.mem_cons.mp hc with rfl | hc
  · exact hcolon
  · rcases List.mem_cons.mp hc with rfl | hc
    · exact hcolon
    · have h := List.all_eq_true.mp hall c hc
      rw [Text.isTargetChar, Bool.and_eq_true, Bool.and_eq_true, Bool.not_eq_true'] at h
      exact h.1.1

/-- A bracket captures one name and one literal. -/
theorem Captures.unique {s name name' : List Char} {literal literal' : Option (List Char)}
    (h : Captures s name literal) (h' : Captures s name' literal') :
    name = name' ∧ literal = literal' := by
  have hchars : ∀ {s name literal}, Captures s name literal →
      literal = (literal.bind Literal.ofChars?).map Literal.chars := by
    intro s name literal h
    cases h with
    | bare hb hn ha => rfl
    | valued hb hn ha hw hm hz =>
      obtain ⟨l, hl, rfl⟩ := Literal.mem_literal_iff.mp hm
      rw [Option.bind_some, Literal.ofChars?_chars hl, Option.map_some]
  have he := (Bracket.ofChars?_of_captures h).symm.trans (Bracket.ofChars?_of_captures h')
  rw [Option.some.injEq, Bracket.mk.injEq] at he
  exact ⟨he.1, (hchars h).trans (he.2 ▸ (hchars h').symm)⟩

end Pattern

inductive Condition.Denoted : List Char → Condition → Prop
  | bare {g name : List Char} (h : Pattern.Captures g name none) :
      Denoted g ⟨String.ofList name, .truthy⟩
  | valued {g name literal : List Char} {e : Expected}
      (h : Pattern.Captures g name (some literal)) (he : Literal.Denotes literal e) :
      Denoted g ⟨String.ofList name, e⟩

def Bracket.Unreadable (g : List Char) : Prop :=
  ∃ name literal, Pattern.Captures g name (some literal) ∧ ∀ e, ¬ Literal.Denotes literal e

theorem Condition.Denoted.unique {g : List Char} {k k' : Condition} (h : Denoted g k)
    (h' : Denoted g k') : k = k' := by
  cases h with
  | bare h =>
    cases h' with
    | bare h' => rw [(h.unique h').1]
    | valued h' he' => cases (h.unique h').2
  | valued h he =>
    cases h' with
    | bare h' => cases (h.unique h').2
    | valued h' he' =>
      obtain ⟨rfl, hl⟩ := h.unique h'
      cases hl
      rw [he.unique he']

theorem Condition.Denoted.not_unreadable {g : List Char} {k : Condition} (h : Denoted g k) :
    ¬ Bracket.Unreadable g := by
  rintro ⟨name, literal, h', he'⟩
  cases h with
  | bare h => cases (h.unique h').2
  | valued h he =>
    cases (h.unique h').2
    exact he' _ he

/-- Brackets and a suffix or nothing. -/
@[ext] structure Cutting where
  brackets : List (List Char)
  suffix : Option (List Char)
  mem_bracket : ∀ g ∈ brackets, g ∈ Pattern.bracket
  mem_suffix : ∀ t ∈ suffix, t ∈ Pattern.suffix

namespace Cutting

def segments (c : Cutting) : List (List Char) :=
  c.brackets ++ c.suffix.toList

def text (c : Cutting) : List Char :=
  c.segments.flatten

def lengths (c : Cutting) : List ℕ :=
  c.segments.map List.length

def target (c : Cutting) : Target :=
  match c.suffix with
  | none => .root
  | some t => if t = "::root".toList then .root else .named (String.ofList (t.drop 2))

/-- The selector that the segments stand for. -/
def Reads (c : Cutting) (s : Selector) : Prop :=
  List.Forall₂ Condition.Denoted c.brackets s.conditions ∧ s.target = c.target

def Unreadable (c : Cutting) : Prop :=
  ∃ g ∈ c.brackets, Bracket.Unreadable g

def Before (c d : Cutting) : Prop :=
  List.Lex (· < ·) c.lengths d.lengths

/-- The cutting of a text that comes before every other one. -/
def First (c : Cutting) (text : List Char) : Prop :=
  c.text = text ∧ ∀ d : Cutting, d.text = text → d = c ∨ c.Before d

def nil : Cutting := ⟨[], none, by simp, by simp⟩

def ofSuffix (t : List Char) (h : t ∈ Pattern.suffix) : Cutting :=
  ⟨[], some t, by simp, by simpa using h⟩

def cons (g : List Char) (h : g ∈ Pattern.bracket) (c : Cutting) : Cutting :=
  ⟨g :: c.brackets, c.suffix, List.forall_mem_cons.mpr ⟨h, c.mem_bracket⟩, c.mem_suffix⟩

@[simp] theorem text_nil : nil.text = [] := rfl

@[simp] theorem text_ofSuffix {t : List Char} (h : t ∈ Pattern.suffix) :
    (ofSuffix t h).text = t := by
  simp [ofSuffix, text, segments]

@[simp] theorem text_cons {g : List Char} (h : g ∈ Pattern.bracket) (c : Cutting) :
    (cons g h c).text = g ++ c.text := rfl

@[simp] theorem lengths_cons {g : List Char} (h : g ∈ Pattern.bracket) (c : Cutting) :
    (cons g h c).lengths = g.length :: c.lengths := rfl

/-- Induction over the brackets of a cutting from the left. -/
@[elab_as_elim] theorem induction {motive : Cutting → Prop} (nil : motive nil)
    (suffix : ∀ t h, motive (ofSuffix t h)) (cons : ∀ g h c, motive c → motive (cons g h c))
    (c : Cutting) : motive c := by
  obtain ⟨brackets, tail, hb, ht⟩ := c
  induction brackets with
  | nil =>
    cases tail with
    | none => exact nil
    | some t => exact suffix t (ht t rfl)
  | cons g gs ih =>
    rw [List.forall_mem_cons] at hb
    exact cons g hb.1 ⟨gs, tail, hb.2, ht⟩ (ih hb.2)

theorem text_eq (c : Cutting) : c.text = c.brackets.flatten ++ c.suffix.getD [] := by
  rw [text, segments, List.flatten_append]
  cases c.suffix with
  | none => rfl
  | some t => simp

theorem target_of_none {c : Cutting} (h : c.suffix = none) : c.target = .root := by
  rw [target, h]

theorem target_of_some {c : Cutting} {t : List Char} (h : c.suffix = some t) :
    c.target = .ofName (String.ofList (t.drop 2)) := by
  obtain ⟨name, -, -, rfl⟩ := Pattern.mem_suffix.mp (c.mem_suffix t h)
  have hroot : String.ofList name = "root" ↔ ':' :: ':' :: name = "::root".toList := by
    rw [← String.toList_inj, show (String.ofList name).toList = name from String.toList_ofList]
    exact ((List.cons_inj_right ':').trans (List.cons_inj_right ':')).symm
  rw [target, h]
  exact (if_congr hroot rfl rfl).symm

theorem Reads.unique {c : Cutting} {s s' : Selector} (h : c.Reads s) (h' : c.Reads s') :
    s = s' := by
  obtain ⟨conditions, target⟩ := s
  obtain ⟨conditions', target'⟩ := s'
  have hk : conditions = conditions' :=
    List.right_unique_forall₂' (fun _ _ _ hk hk' => hk.unique hk') h.1 h'.1
  have ht : target = target' := h.2.trans h'.2.symm
  rw [hk, ht]

theorem not_unreadable_of_forall₂ {gs : List (List Char)} {ks : List Condition}
    (h : List.Forall₂ Condition.Denoted gs ks) : ∀ g ∈ gs, ¬ Bracket.Unreadable g := by
  induction h with
  | nil => simp
  | cons hk _ ih => exact List.forall_mem_cons.mpr ⟨hk.not_unreadable, ih⟩

theorem Reads.not_unreadable {c : Cutting} {s : Selector} (h : c.Reads s) : ¬ c.Unreadable := by
  rintro ⟨g, hg, hu⟩
  exact not_unreadable_of_forall₂ h.1 g hg hu

/-- Texts that are cut into brackets are cut in one way. -/
theorem flatten_injective {gs hs : List (List Char)} (hg : ∀ g ∈ gs, g ∈ Pattern.bracket)
    (hh : ∀ h ∈ hs, h ∈ Pattern.bracket) (he : gs.flatten = hs.flatten) : gs = hs := by
  induction gs using List.reverseRecOn generalizing hs with
  | nil =>
    cases hs with
    | nil => rfl
    | cons h hs =>
      obtain ⟨middle, rfl⟩ := Pattern.exists_of_mem_bracket (hh h List.mem_cons_self)
      simp at he
  | append_singleton gs g ih =>
    cases hs using List.reverseRecOn with
    | nil =>
      obtain ⟨middle, rfl⟩ := Pattern.exists_of_mem_bracket (hg g (by simp))
      simp at he
    | append_singleton hs h =>
      have hg' := hg g (by simp)
      have hh' := hh h (by simp)
      rw [List.flatten_append, List.flatten_append, List.flatten_singleton,
        List.flatten_singleton] at he
      have hgh : g = h ∧ gs.flatten = hs.flatten := by
        rcases Pattern.append_cases he with ⟨hf, hgh⟩ | ⟨a, hne, -, hga⟩ | ⟨a, hne, -, hha⟩
        · exact ⟨hgh, hf⟩
        · exact absurd (Pattern.bracket_of_end hg' hh' hga) hne
        · exact absurd (Pattern.bracket_of_end hh' hg' hha) hne
      rw [hgh.1, ih (fun g hm => hg g (List.mem_append_left _ hm))
        (fun h hm => hh h (List.mem_append_left _ hm)) hgh.2]

/-- A text has at most one cutting with a suffix and at most one without. -/
theorem eq_of_text {c d : Cutting} (ht : c.text = d.text)
    (hs : c.suffix.isSome = d.suffix.isSome) : c = d := by
  have hbrackets : c.brackets.flatten = d.brackets.flatten → c.brackets = d.brackets :=
    flatten_injective c.mem_bracket d.mem_bracket
  rw [text_eq, text_eq] at ht
  cases hc : c.suffix with
  | none =>
    cases hd : d.suffix with
    | none =>
      rw [hc, hd, Option.getD_none, List.append_nil, List.append_nil] at ht
      exact Cutting.ext (hbrackets ht) (hc.trans hd.symm)
    | some u => rw [hc, hd] at hs; cases hs
  | some t =>
    cases hd : d.suffix with
    | none => rw [hc, hd] at hs; cases hs
    | some u =>
      rw [hc, hd, Option.getD_some, Option.getD_some] at ht
      obtain ⟨name, -, hname, rfl⟩ := Pattern.mem_suffix.mp (c.mem_suffix t hc)
      obtain ⟨name', -, hname', rfl⟩ := Pattern.mem_suffix.mp (d.mem_suffix u hd)
      have he : c.brackets.flatten ++ [':'] ++ ':' :: name =
          d.brackets.flatten ++ [':'] ++ ':' :: name' := by simpa using ht
      obtain ⟨hf, -, rfl⟩ :=
        Pattern.append_cons_inj_right hname hname' (by decide) (by decide) he
      exact Cutting.ext (hbrackets (List.append_inj_left' hf rfl)) (hc.trans hd.symm)

/-- A text with given brackets in front has at most one cutting. -/
theorem eq_of_brackets {c d : Cutting} (ht : c.text = d.text) (hb : c.brackets = d.brackets) :
    c = d := by
  refine eq_of_text ht ?_
  rw [text_eq, text_eq, hb] at ht
  have hs := List.append_cancel_left ht
  cases hc : c.suffix with
  | none =>
    cases hd : d.suffix with
    | none => rfl
    | some u =>
      rw [hc, hd] at hs
      exact absurd hs.symm (Pattern.bounded_suffix (d.mem_suffix u hd)).1
  | some t =>
    cases hd : d.suffix with
    | none =>
      rw [hc, hd] at hs
      exact absurd hs (Pattern.bounded_suffix (c.mem_suffix t hc)).1
    | some u => rfl

end Cutting

end PropStyling
