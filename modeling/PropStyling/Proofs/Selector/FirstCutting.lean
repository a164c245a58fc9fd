import PropStyling.Proofs.Selector.Cutting
import PropStyling.Proofs.Selector.Recognition

/-! # The first cutting

A text is cut with backtracking over the ends of its brackets. What is found is the
cutting with the lexicographically least segment lengths, as soon as there is any
cutting, and a literal without a value counts only in that cutting. So every selector
of the grammar that is not a bare style property is read off its first cutting.
-/
namespace PropStyling

namespace Cutting

/-- A cutting of the characters passed and the text ahead, with a first bracket that ends ahead. -/
structure Continues (seen ahead : List Char) (c : Cutting) : Prop where
  text_eq : c.text = seen.reverse ++ ahead
  passed : seen = [] ∨ ∃ g gs, c.brackets = g :: gs ∧ seen.length < g.length

def FirstAfter (seen ahead : List Char) (c : Cutting) : Prop :=
  Continues seen ahead c ∧ ∀ d, Continues seen ahead d → d = c ∨ c.Before d

def Yields (c : Cutting) : Except InvalidSelector (Option Selector) → Prop
  | .ok (some s) => c.Reads s
  | .ok none => False
  | .error e => c.Unreadable ∧ e.fault ≠ .uncut

theorem eq_cons_of_brackets {c : Cutting} {g : List Char} {gs : List (List Char)}
    (h : c.brackets = g :: gs) : ∃ hg d, c = cons g hg d := by
  have hall := c.mem_bracket
  rw [h, List.forall_mem_cons] at hall
  exact ⟨hall.1, ⟨gs, c.suffix, hall.2, c.mem_suffix⟩, Cutting.ext h rfl⟩

theorem continues_nil_iff {ahead : List Char} {c : Cutting} :
    Continues [] ahead c ↔ c.text = ahead :=
  ⟨fun h => h.text_eq, fun h => ⟨h, .inl rfl⟩⟩

theorem firstAfter_nil_iff {ahead : List Char} {c : Cutting} :
    FirstAfter [] ahead c ↔ c.First ahead := by
  simp only [FirstAfter, First, continues_nil_iff]

theorem eq_nil_of_text {c : Cutting} (h : c.text = []) : c = nil := by
  induction c using Cutting.induction with
  | nil => rfl
  | suffix t ht =>
    obtain ⟨name, -, -, rfl⟩ := Pattern.mem_suffix.mp ht
    rw [text_ofSuffix] at h
    cases h
  | cons g hg c ih =>
    obtain ⟨middle, rfl⟩ := Pattern.exists_of_mem_bracket hg
    cases h

theorem eq_cons_of_text {c : Cutting} {rest : List Char} (h : c.text = '[' :: rest) :
    ∃ g hg d, c = cons g hg d := by
  induction c using Cutting.induction with
  | nil => cases h
  | suffix t ht =>
    obtain ⟨name, -, -, rfl⟩ := Pattern.mem_suffix.mp ht
    rw [text_ofSuffix] at h
    cases h
  | cons g hg c ih => exact ⟨g, hg, c, rfl⟩

theorem eq_suffix_of_text {c : Cutting} {first : Char} {rest : List Char}
    (h : c.text = first :: rest) (hf : first ≠ '[') : ∃ ht, c = ofSuffix (first :: rest) ht := by
  induction c using Cutting.induction with
  | nil => cases h
  | suffix t ht =>
    rw [text_ofSuffix] at h
    subst h
    exact ⟨ht, rfl⟩
  | cons g hg c ih =>
    obtain ⟨middle, rfl⟩ := Pattern.exists_of_mem_bracket hg
    exact absurd (List.cons.inj h).1.symm hf

/-- The first bracket ends at the next character or after it. -/
theorem continues_cons_iff {seen rest : List Char} {c : Char} {d : Cutting}
    (hs : seen ≠ [] ∨ c = '[') : Continues seen (c :: rest) d ↔ Continues (c :: seen) rest d ∨
      ∃ hg e, e.text = rest ∧ d = cons (seen.reverse ++ [c]) hg e := by
  constructor
  · intro h
    have hfirst : ∃ g hg e, d = cons g hg e ∧ seen.length < g.length := by
      rcases h.passed with rfl | ⟨g, gs, hb, hl⟩
      · obtain rfl := hs.resolve_left (not_not_intro rfl)
        obtain ⟨g, hg, e, rfl⟩ := eq_cons_of_text h.text_eq
        obtain ⟨middle, rfl⟩ := Pattern.exists_of_mem_bracket hg
        exact ⟨_, hg, e, rfl, by simp⟩
      · obtain ⟨hg, e, rfl⟩ := eq_cons_of_brackets hb
        exact ⟨g, hg, e, rfl, hl⟩
    obtain ⟨g, hg, e, rfl, hl⟩ := hfirst
    have ht : g ++ e.text = seen.reverse ++ c :: rest := h.text_eq
    rcases Pattern.append_cons_cases ht with ⟨a, ha, -⟩ | ⟨a, ha, hrest⟩
    · have hlen := congrArg List.length ha
      rw [List.length_append, List.length_reverse] at hlen
      omega
    · cases a with
      | nil => exact .inr ⟨ha ▸ hg, e, hrest.symm, by simp only [ha]⟩
      | cons f a =>
        refine .inl ⟨by simpa using h.text_eq, .inr ⟨g, e.brackets, rfl, ?_⟩⟩
        rw [ha]
        simp
  · rintro (h | ⟨hg, e, rfl, rfl⟩)
    · refine ⟨by simpa using h.text_eq, ?_⟩
      obtain ⟨g, gs, hb, hl⟩ := h.passed.resolve_left (List.cons_ne_nil _ _)
      exact .inr ⟨g, gs, hb, (Nat.lt_succ_self _).trans hl⟩
    · refine ⟨by simp, ?_⟩
      exact .inr ⟨_, e.brackets, rfl, by simp⟩

/-- A cutting that ends its first bracket at the next character comes before those that do not. -/
theorem FirstAfter.cons {seen rest : List Char} {c : Char} {e : Cutting}
    (hs : seen ≠ [] ∨ c = '[') (hg : seen.reverse ++ [c] ∈ Pattern.bracket)
    (h : FirstAfter [] rest e) :
    FirstAfter seen (c :: rest) (Cutting.cons (seen.reverse ++ [c]) hg e) := by
  rw [firstAfter_nil_iff] at h
  refine ⟨(continues_cons_iff hs).mpr (.inr ⟨hg, e, h.1, rfl⟩), ?_⟩
  intro d hd
  rcases (continues_cons_iff hs).mp hd with hd | ⟨hg', e', he', rfl⟩
  · obtain ⟨g, gs, hb, hl⟩ := hd.passed.resolve_left (List.cons_ne_nil _ _)
    obtain ⟨hg', e', rfl⟩ := eq_cons_of_brackets hb
    exact .inr (.rel (by simpa using hl))
  · rcases h.2 e' he' with rfl | hb
    · exact .inl rfl
    · exact .inr (.cons hb)

theorem FirstAfter.of_not_ends {seen rest : List Char} {c : Char} {d : Cutting}
    (hs : seen ≠ [] ∨ c = '[')
    (hn : ∀ _ : seen.reverse ++ [c] ∈ Pattern.bracket, ∀ e : Cutting, e.text ≠ rest)
    (h : FirstAfter (c :: seen) rest d) : FirstAfter seen (c :: rest) d := by
  refine ⟨(continues_cons_iff hs).mpr (.inl h.1), ?_⟩
  intro d' hd'
  rcases (continues_cons_iff hs).mp hd' with hd' | ⟨hg, e, he, rfl⟩
  · exact h.2 d' hd'
  · exact absurd he (hn hg e)

/-- Nothing was found where nothing can be, and otherwise the outcome of the first cutting. -/
def Decides (seen ahead : List Char) (r : Except InvalidSelector (Option Selector)) : Prop :=
  (r = .ok none ∧ ∀ c, ¬ Continues seen ahead c) ∨ ∃ c, FirstAfter seen ahead c ∧ c.Yields r

theorem Decides.of_not_ends {seen rest : List Char} {c : Char}
    {r : Except InvalidSelector (Option Selector)} (hs : seen ≠ [] ∨ c = '[')
    (hn : ∀ _ : seen.reverse ++ [c] ∈ Pattern.bracket, ∀ e : Cutting, e.text ≠ rest)
    (h : Decides (c :: seen) rest r) : Decides seen (c :: rest) r := by
  rcases h with ⟨hr, hnone⟩ | ⟨d, hd, hy⟩
  · refine .inl ⟨hr, fun d hd => ?_⟩
    rcases (continues_cons_iff hs).mp hd with hd | ⟨hg, e, he, rfl⟩
    · exact hnone d hd
    · exact hn hg e he
  · exact .inr ⟨d, hd.of_not_ends hs hn, hy⟩

end Cutting

/-- A bracket gives the condition it stands for, or a fault that its literal has no value. -/
theorem Bracket.condition_eq {g : List Char} {b : Bracket} (h : ofChars? g = some b)
    (text : List Char) : (∃ k, b.condition text = .ok k ∧ Condition.Denoted g k) ∨
      ∃ e, b.condition text = .error e ∧ e.fault ≠ .uncut ∧ Unreadable g := by
  obtain ⟨hc, hwf⟩ := captures_of_ofChars? h
  obtain ⟨prop, literal⟩ := b
  cases literal with
  | none => exact .inl ⟨_, rfl, .bare hc⟩
  | some l =>
    have hl := fun e => Literal.Denotes.iff_expected? (e := e) (hwf l rfl)
    cases he : l.expected? with
    | none =>
      refine .inr ⟨⟨String.ofList text, .badNumber (String.ofList l.chars)⟩, ?_, ?_, ?_⟩
      · simp only [condition, he]
      · exact Fault.noConfusion
      · refine ⟨prop, l.chars, hc, fun e hd => ?_⟩
        rw [hl, he] at hd
        cases hd
    | some e =>
      refine .inl ⟨⟨String.ofList prop, e⟩, ?_, .valued hc ((hl e).mpr he)⟩
      simp only [condition, he]

theorem Selector.ofSuffix?_eq {t : List Char} : (t ∉ Pattern.suffix ∧ ofSuffix? t = none) ∨
    ∃ h s, ofSuffix? t = some s ∧ (Cutting.ofSuffix t h).Reads s := by
  by_cases ht : t ∈ Pattern.suffix
  · obtain ⟨name, hn, ha, rfl⟩ := Pattern.mem_suffix.mp ht
    have htarget : (Cutting.ofSuffix _ ht).target = .ofName (String.ofList name) :=
      Cutting.target_of_some (t := ':' :: ':' :: name) rfl
    refine .inr ⟨ht, ofName (String.ofList name), ?_, .nil, htarget.symm⟩
    rw [ofSuffix?, if_pos ⟨hn, ha⟩]
  · refine .inl ⟨ht, ?_⟩
    rw [ofSuffix?.eq_def]
    split
    · next name => exact if_neg fun h => ht (Pattern.mem_suffix.mpr ⟨name, h.1, h.2, rfl⟩)
    · rfl

/-- Cutting decides every text ahead after any characters passed. -/
theorem Selector.cut_decides (seen ahead : List Char) :
    Cutting.Decides seen ahead (cut seen ahead) := by
  induction ahead generalizing seen with
  | nil =>
    rw [cut]
    cases seen with
    | nil =>
      refine .inr ⟨.nil, ⟨⟨rfl, .inl rfl⟩, ?_⟩, .nil, rfl⟩
      intro d hd
      exact .inl (Cutting.eq_nil_of_text hd.text_eq)
    | cons c seen =>
      refine .inl ⟨rfl, fun d hd => ?_⟩
      obtain ⟨g, gs, hb, hl⟩ := hd.passed.resolve_left (List.cons_ne_nil c seen)
      obtain ⟨hg, e, rfl⟩ := Cutting.eq_cons_of_brackets hb
      have ht := congrArg List.length hd.text_eq
      simp at ht hl
      omega
  | cons c rest ih =>
    rw [cut]
    by_cases hs : (seen.isEmpty && c != '[') = true
    · rw [if_pos hs]
      rw [Bool.and_eq_true, List.isEmpty_iff, bne_iff_ne] at hs
      obtain ⟨rfl, hc⟩ := hs
      rcases ofSuffix?_eq (t := c :: rest) with ⟨ht, he⟩ | ⟨ht, s, he, hr⟩
      · rw [he]
        refine .inl ⟨rfl, fun d hd => ?_⟩
        obtain ⟨ht', -⟩ := Cutting.eq_suffix_of_text hd.text_eq hc
        exact ht ht'
      · rw [he]
        refine .inr ⟨_, ⟨⟨Cutting.text_ofSuffix ht, .inl rfl⟩, fun d hd => ?_⟩, hr⟩
        obtain ⟨_, rfl⟩ := Cutting.eq_suffix_of_text hd.text_eq hc
        exact .inl rfl
    · rw [if_neg hs]
      have hs : seen ≠ [] ∨ c = '[' := by simpa [or_iff_not_imp_left] using hs
      by_cases hc : c = ']'
      · rw [if_pos hc]
        cases hb : Bracket.ofChars? (seen.reverse ++ [c]) with
        | none =>
          apply (ih (c :: seen)).of_not_ends hs
          intro hg
          rw [← Bracket.ofChars?_isSome, hb] at hg
          cases hg
        | some b =>
          have hg : seen.reverse ++ [c] ∈ Pattern.bracket :=
            Bracket.ofChars?_isSome.mp (hb ▸ rfl)
          rcases ih [] with ⟨hr, hnone⟩ | ⟨d, hd, hy⟩
          · simp only [hr]
            exact (ih (c :: seen)).of_not_ends hs fun _ e he => hnone e ⟨he, .inl rfl⟩
          · refine .inr ⟨_, hd.cons hs hg, ?_⟩
            cases hr : cut [] rest with
            | error e =>
              rw [hr] at hy
              obtain ⟨⟨g, hgd, hu⟩, hf⟩ := hy
              exact ⟨⟨g, List.mem_cons_of_mem _ hgd, hu⟩, hf⟩
            | ok o =>
              cases o with
              | none =>
                rw [hr] at hy
                exact hy.elim
              | some s =>
                rw [hr] at hy
                rcases Bracket.condition_eq hb (seen.reverse ++ c :: rest) with
                  ⟨k, hk, hden⟩ | ⟨e, he, hf, hu⟩
                · simp only [hk]
                  exact ⟨.cons hden hy.1, hy.2⟩
                · simp only [he]
                  exact ⟨⟨_, List.mem_cons_self, hu⟩, hf⟩
      · rw [if_neg hc]
        apply (ih (c :: seen)).of_not_ends hs
        intro hg
        obtain ⟨middle, hm⟩ := Pattern.exists_of_mem_bracket hg
        have he : seen.reverse ++ [c] = '[' :: middle ++ [']'] := by simpa using hm
        exact absurd (List.cons.inj (List.append_inj_right' he rfl)).1 hc

namespace Cutting
open scoped Computability

/-- A cutting is the first when no bracket of it can be ended earlier. -/
theorem first_of_starts {c : Cutting} (h : ∀ g ∈ c.brackets, ∀ start rest,
    start ∈ Pattern.bracket → g = start ++ rest → rest = []) : c.First c.text := by
  refine ⟨rfl, fun d hd => ?_⟩
  induction c using Cutting.induction generalizing d with
  | nil => exact .inl (eq_nil_of_text hd)
  | suffix t ht =>
    obtain ⟨name, -, -, rfl⟩ := Pattern.mem_suffix.mp ht
    rw [text_ofSuffix] at hd
    obtain ⟨_, rfl⟩ := eq_suffix_of_text hd (by decide)
    exact .inl rfl
  | cons g hg c ih =>
    have hstart : ∀ g' hg' (d : Cutting), (cons g' hg' d).text = (cons g hg c).text →
        g = g' ∨ g.length < g'.length := by
      intro g' hg' d hd
      rw [text_cons, text_cons] at hd
      rcases Pattern.append_cases hd with ⟨hgg, -⟩ | ⟨a, hne, ha, -⟩ | ⟨a, hne, ha, -⟩
      · exact .inl hgg.symm
      · exact absurd (h g List.mem_cons_self g' a hg' ha) hne
      · have hl := List.length_pos_iff.mpr hne
        exact .inr (by rw [ha, List.length_append]; omega)
    obtain ⟨middle, hm⟩ := Pattern.exists_of_mem_bracket hg
    have ht : (cons g hg c).text = '[' :: (middle ++ [']'] ++ c.text) := by rw [text_cons, hm]; rfl
    obtain ⟨g', hg', d, rfl⟩ := eq_cons_of_text (hd.trans ht)
    rcases hstart g' hg' d hd with rfl | hl
    · have hdc : d.text = c.text := List.append_cancel_left hd
      rcases ih (fun g hg => h g (List.mem_cons_of_mem _ hg)) d hdc with rfl | hb
      · exact .inl rfl
      · exact .inr (.cons hb)
    · exact .inr (.rel hl)

/-- A cutting is the first when each cutting of its text has a suffix if and only if it has one. -/
theorem first_of_suffix {c : Cutting}
    (h : ∀ d : Cutting, d.text = c.text → d.suffix.isSome = c.suffix.isSome) : c.First c.text :=
  ⟨rfl, fun d hd => .inl (eq_of_text hd (h d hd))⟩

/-- Two first cuttings of a text are the same. -/
theorem First.unique {c d : Cutting} {text : List Char} (hc : c.First text) (hd : d.First text) :
    c = d := by
  rcases hc.2 d hd.1 with rfl | hcd
  · rfl
  · rcases hd.2 c hc.1 with rfl | hdc
    · rfl
    · exact absurd hdc (List.lt_asymm hcd)

/-- A selector that is not a bare style property has a cutting. -/
theorem exists_of_mem_selector {text : List Char} (h : text ∈ Pattern.selector)
    (hp : text.all Text.isPropertyChar = false) : ∃ c : Cutting, c.text = text := by
  have hstar : ∀ {first : List Char}, first ∈ Pattern.bracket∗ → ∀ tail : Option (List Char),
      (∀ t ∈ tail, t ∈ Pattern.suffix) → ∃ c : Cutting, c.text = first ++ tail.getD [] := by
    rintro first hf tail ht
    obtain ⟨gs, rfl, hg⟩ := Language.mem_kstar.mp hf
    exact ⟨⟨gs, tail, hg, ht⟩, text_eq _⟩
  rw [Pattern.selector, Language.mem_add, Language.mem_add] at h
  rcases h with (h | ⟨first, hf, t, ht, rfl⟩) | h
  · obtain ⟨g, hg, first, hf, rfl⟩ := h
    obtain ⟨c, hc⟩ := hstar hf none (by simp)
    exact ⟨cons g hg c, by simpa using hc⟩
  · exact hstar hf (some t) (by rintro _ ⟨⟩; exact ht)
  · exact absurd (Pattern.mem_plus_one.mp h).2 (by rw [hp]; exact Bool.false_ne_true)

/-- The text of a cutting starts with a bracket or a colon. -/
theorem mem_selector {c : Cutting} (h : c.text ≠ []) :
    c.text ∈ Pattern.selector ∧ c.text.all Text.isPropertyChar = false := by
  have hstar : c.brackets.flatten ∈ Pattern.bracket∗ :=
    Language.mem_kstar.mpr ⟨c.brackets, rfl, c.mem_bracket⟩
  have hplus : c.suffix = none → c.text ∈ Pattern.plus Pattern.bracket := by
    intro hs
    cases c using Cutting.induction with
    | nil => exact absurd rfl h
    | suffix t ht => cases hs
    | cons g hg c =>
      refine ⟨g, hg, c.brackets.flatten, Language.mem_kstar.mpr ⟨_, rfl, c.mem_bracket⟩, ?_⟩
      have he : c.suffix = none := hs
      rw [text_cons, text_eq, he, Option.getD_none, List.append_nil]
  constructor
  · rw [Pattern.selector, Language.mem_add, Language.mem_add]
    left
    cases hs : c.suffix with
    | none => exact .inl (hplus hs)
    | some t =>
      right
      rw [text_eq, hs]
      exact Language.append_mem_mul hstar (c.mem_suffix t hs)
  · cases c using Cutting.induction with
    | nil => exact absurd rfl h
    | suffix t ht =>
      obtain ⟨name, -, -, rfl⟩ := Pattern.mem_suffix.mp ht
      rw [text_ofSuffix, List.all_cons, show Text.isPropertyChar ':' = false by decide,
        Bool.false_and]
    | cons g hg c =>
      obtain ⟨middle, rfl⟩ := Pattern.exists_of_mem_bracket hg
      rw [text_cons, List.cons_append, List.all_cons,
        show Text.isPropertyChar '[' = false by decide, Bool.false_and]

end Cutting

namespace Selector

theorem parse_of_cut_error {text : String} {e : InvalidSelector}
    (hg : Text.trim text.toList ∈ Pattern.selector)
    (hp : (Text.trim text.toList).all Text.isPropertyChar = false)
    (hc : cut [] (Text.trim text.toList) = .error e) : parse text = .error e := by
  have hv : Stage.start.accepts (Text.trim text.toList) = true :=
    (Stage.accepts_iff .start _).mpr hg
  rw [parse, parseChars, hv, hp, hc]
  rfl

theorem parse_of_cut {text : String} {s : Selector}
    (hg : Text.trim text.toList ∈ Pattern.selector)
    (hp : (Text.trim text.toList).all Text.isPropertyChar = false)
    (hc : cut [] (Text.trim text.toList) = .ok (some s)) : parse text = .ok s := by
  have hv : Stage.start.accepts (Text.trim text.toList) = true :=
    (Stage.accepts_iff .start _).mpr hg
  rw [parse, parseChars, hv, hp, hc]
  rfl

/-- A text that has a cutting is read off the first one. -/
theorem parse_of_first {text : String} {c : Cutting} (h : c.First (Text.trim text.toList))
    (hn : Text.trim text.toList ≠ []) : (∀ s, parse text = .ok s ↔ c.Reads s) ∧
      ((∃ e, parse text = .error e) ↔ c.Unreadable) ∧
      ∀ e, parse text = .error e → e.fault ≠ .uncut := by
  have ht : c.text ≠ [] := h.1.symm ▸ hn
  obtain ⟨hg, hp⟩ := Cutting.mem_selector ht
  rw [h.1] at hg hp
  rcases cut_decides [] (Text.trim text.toList) with ⟨-, hnone⟩ | ⟨d, hd, hy⟩
  · exact absurd ⟨h.1, .inl rfl⟩ (hnone c)
  · obtain rfl := h.unique (Cutting.firstAfter_nil_iff.mp hd)
    cases hr : cut [] (Text.trim text.toList) with
    | error e =>
      rw [hr] at hy
      rw [parse_of_cut_error hg hp hr]
      refine ⟨fun s => ⟨?_, fun hs => absurd hy.1 hs.not_unreadable⟩, ?_, ?_⟩
      · intro he
        cases he
      · exact iff_of_true ⟨e, rfl⟩ hy.1
      · intro e' he
        rw [← Except.error.inj he]
        exact hy.2
    | ok o =>
      cases o with
      | none =>
        rw [hr] at hy
        exact hy.elim
      | some s =>
        rw [hr] at hy
        rw [parse_of_cut hg hp hr]
        refine ⟨fun s' => ⟨?_, fun hs => congrArg Except.ok (hy.unique hs)⟩, ?_, ?_⟩
        · intro hs
          rw [← Except.ok.inj hs]
          exact hy
        · refine iff_of_false ?_ hy.not_unreadable
          rintro ⟨e, he⟩
          cases he
        · intro e he
          cases he

theorem parse_of_invalid {text : String} (h : isValid text = false) :
    parse text = .error ⟨String.ofList (Text.trim text.toList), .ungrammatical⟩ := by
  rw [isValid] at h
  rw [parse, parseChars, h]
  rfl

theorem isValid_of_parse {text : String} {s : Selector} (h : parse text = .ok s) :
    isValid text = true := by
  by_contra hv
  rw [parse_of_invalid (Bool.eq_false_iff.mpr hv)] at h
  cases h

theorem isProperty_iff_mem {text : String} :
    isProperty text = true ↔ Text.trim text.toList ∈ Pattern.property := by
  rw [isProperty, Bool.and_eq_true, Bool.not_eq_true', List.isEmpty_eq_false_iff]
  exact Pattern.mem_plus_one.symm

theorem parse_of_property {text : String} (h : isProperty text = true) :
    parse text = .ok root := by
  have hp := isProperty_iff_mem.mp h
  have hv : Stage.start.accepts (Text.trim text.toList) = true := by
    rw [Stage.accepts_iff, Stage.language, Pattern.selector, Language.mem_add]
    exact .inr hp
  rw [parse, parseChars, hv, (Pattern.mem_plus_one.mp hp).2]
  rfl

/-- A selector that is not a bare style property has a first cutting. -/
theorem exists_first {text : String} (hv : isValid text = true) (hp : isProperty text = false) :
    ∃ c : Cutting, c.First (Text.trim text.toList) ∧ Text.trim text.toList ≠ [] := by
  have hm := (isValid_iff_mem text).mp hv
  have hn : Text.trim text.toList ≠ [] := fun he => Stage.nil_notMem_selector (he ▸ hm)
  have hc : (Text.trim text.toList).all Text.isPropertyChar = false := by
    rwa [isProperty, List.isEmpty_eq_false_iff.mpr hn, Bool.not_false, Bool.true_and] at hp
  obtain ⟨c, hc⟩ := Cutting.exists_of_mem_selector hm hc
  rcases cut_decides [] (Text.trim text.toList) with ⟨-, hnone⟩ | ⟨d, hd, -⟩
  · exact absurd ⟨hc, .inl rfl⟩ (hnone c)
  · exact ⟨d, Cutting.firstAfter_nil_iff.mp hd, hn⟩

/-- A parsed selector is the root or is read off a first cutting. -/
theorem eq_root_or_exists_first {text : String} {s : Selector} (h : parse text = .ok s) :
    s = root ∨ ∃ c : Cutting, c.First (Text.trim text.toList) ∧ c.Reads s := by
  cases hv : isValid text with
  | false =>
    rw [parse_of_invalid hv] at h
    cases h
  | true =>
    cases hp : isProperty text with
    | true =>
      rw [parse_of_property hp] at h
      exact .inl (Except.ok.inj h).symm
    | false =>
      obtain ⟨c, hc, hn⟩ := exists_first hv hp
      exact .inr ⟨c, hc, ((parse_of_first hc hn).1 s).mp h⟩

/-- Parsing agrees with the grammar on every text. A text outside the grammar is refused, a bare
style property is the root, and any other text has cuttings: the outcome is that of the first
one, whose literals stand for values exactly when they are quoted, words or numbers in range. -/
theorem parse_eq_first_cutting (text : String) :
    let chars := Text.trim text.toList
    (isValid text = true ↔ chars ∈ Pattern.selector) ∧
    (isValid text = false → ∃ e, parse text = .error e) ∧
    (chars ∈ Pattern.property → parse text = .ok ⟨[], .root⟩) ∧
    (isValid text = true → chars ∉ Pattern.property → ∃ c : Cutting, c.First chars ∧
      (∀ s, parse text = .ok s ↔ c.Reads s) ∧ ((∃ e, parse text = .error e) ↔ c.Unreadable)) ∧
    (∀ e, parse text = .error e → e.fault ≠ .uncut) ∧
    ∀ literal ∈ Pattern.literal, (∃ e, Literal.Denotes literal e) ↔
      literal ∈ Pattern.quoted ∨ literal.map Char.toLower = "true".toList ∨
      literal.map Char.toLower = "false".toList ∨
      literal ∈ Pattern.digits ∧ Nat.ofDigitChars 10 literal 0 < Binary64.bound := by
  intro chars
  refine ⟨isValid_iff_mem text, fun h => ⟨_, parse_of_invalid h⟩, ?_, ?_, ?_, ?_⟩
  · intro hp
    exact parse_of_property (isProperty_iff_mem.mpr hp)
  · intro hv hp
    rw [← isProperty_iff_mem, Bool.not_eq_true] at hp
    obtain ⟨c, hc, hn⟩ := exists_first hv hp
    obtain ⟨hok, herr, -⟩ := parse_of_first hc hn
    exact ⟨c, hc, hok, herr⟩
  · intro e he
    cases hv : isValid text with
    | false =>
      rw [parse_of_invalid hv] at he
      cases he
      exact Fault.noConfusion
    | true =>
      cases hp : isProperty text with
      | true =>
        rw [parse_of_property hp] at he
        cases he
      | false =>
        obtain ⟨c, hc, hn⟩ := exists_first hv hp
        exact (parse_of_first hc hn).2.2 e he
  · exact fun literal hl => Literal.exists_denotes_iff hl

end Selector

end PropStyling
