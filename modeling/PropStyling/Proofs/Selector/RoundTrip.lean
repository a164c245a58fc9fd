import PropStyling.Proofs.Selector.Printing

/-! # Printing and parsing

A selector built from plain names, integers and texts is parsed back from what it
prints, unless a value with a quote in it lets the printed text be cut elsewhere.
Such a cut ends a bracket at a quote inside a value. It is impossible without quotes
in the values, and it is impossible also where the rest of the text cannot be cut: a
name without quotes cannot close a value, and a value without a double colon holds
no suffix.
-/
namespace PropStyling
open Pattern

def Condition.Printable (k : Condition) : Prop :=
  k.prop ≠ "" ∧ (∀ c ∈ k.prop.toList, c.isAlphanum = true ∨ c = '_') ∧ k.expected.Printable

instance : DecidablePred Condition.Printable := fun k =>
  decidable_of_iff (k.prop ≠ "" ∧ (k.prop.toList.all fun c => c.isAlphanum || c == '_') = true ∧
    k.expected.Printable) (by simp [Condition.Printable])

def Target.Printable : Target → Prop
  | .root => True
  | .named n =>
    n ≠ "" ∧ n ≠ "root" ∧ ∀ c ∈ n.toList, Text.isBlank c = false ∧ c ≠ ':' ∧ c ≠ '='

instance : DecidablePred Target.Printable
  | .root => inferInstanceAs (Decidable True)
  | .named n =>
    decidable_of_iff (n ≠ "" ∧ n ≠ "root" ∧ n.toList.all Text.isTargetChar = true)
      (by simp [Target.Printable, Text.isTargetChar, and_assoc])

/-- Selectors built from plain prop names, printable expectations and a name without separators. -/
def Selector.Printable (s : Selector) : Prop :=
  (∀ k ∈ s.conditions, k.Printable) ∧ s.target.Printable

instance : DecidablePred Selector.Printable := fun s =>
  inferInstanceAs (Decidable ((∀ k ∈ s.conditions, _) ∧ _))

theorem Condition.Printable.mem_name {k : Condition} (h : k.Printable) : k.prop.toList ∈ name := by
  refine Pattern.mem_name.mpr ⟨fun he => h.1 (String.toList_eq_nil_iff.mp he), ?_⟩
  apply List.all_eq_true.mpr
  intro c hc
  rcases h.2.1 c hc with ha | rfl
  · exact Text.isNameChar_of_isPropertyChar (Text.isPropertyChar_of_isAlphanum ha)
  · decide

theorem Target.Printable.legible {t : Target} (h : t.Printable) :
    t.chars ∈ Pattern.suffix ∧ ofName t.name = t := by
  cases t with
  | root => exact ⟨mem_suffix.mpr ⟨['r', 'o', 'o', 't'], by decide, by decide, rfl⟩, rfl⟩
  | named n =>
    refine ⟨mem_suffix.mpr ⟨n.toList, fun he => h.1 (String.toList_eq_nil_iff.mp he), ?_, rfl⟩, ?_⟩
    · apply List.all_eq_true.mpr
      intro c hc
      obtain ⟨hb, hcolon, hequals⟩ := h.2.2 c hc
      rw [Text.isTargetChar, hb, bne_iff_ne.mpr hcolon, bne_iff_ne.mpr hequals]
      rfl
    · exact if_neg h.2.1

theorem Selector.Printable.legible {s : Selector} (h : s.Printable) : s.Legible where
  conditions k hk := Condition.denoted_chars (h.1 k hk).mem_name (h.1 k hk).2.2
  suffix := h.2.legible.1
  target := h.2.legible.2

namespace Selector

def strings (s : Selector) : List String :=
  s.conditions.filterMap fun k => match k.expected with
    | .string v => some v
    | _ => none

theorem mem_strings {s : Selector} {k : Condition} {v : String} (hk : k ∈ s.conditions)
    (hv : k.expected = .string v) : v ∈ s.strings :=
  List.mem_filterMap.mpr ⟨k, hk, by rw [hv]⟩

end Selector

/-- A printed condition with no quote in its text cannot be ended earlier. -/
theorem Condition.Printable.eq_nil_of_start {k : Condition} (h : k.Printable)
    (hq : ∀ v, k.expected = .string v → '"' ∉ v.toList) {start rest : List Char}
    (hs : start ∈ bracket) (he : k.chars = start ++ rest) : rest = [] := by
  by_contra hne
  have hk : k.chars ∈ bracket := (denoted_chars h.mem_name h.2.2).mem_bracket
  obtain ⟨opening, content, last, content', last', -, -, -, -, -, rfl, rfl, -⟩ :=
    bracket_of_start hs hk he hne
  have hcount : 3 ≤ k.chars.count '"' := by
    rw [he]
    simp only [List.count_append, List.count_cons, beq_self_eq_true, if_true]
    omega
  by_cases hstring : ∃ v, k.expected = .string v
  · obtain ⟨v, hv⟩ := hstring
    obtain ⟨ho, hc⟩ := chars_quoted h.mem_name hv
    have hopen := List.count_eq_zero.mpr (not_mem_of_all ho.all_isInner (c := '"') (by decide))
    have hvalue := List.count_eq_zero.mpr (hq v hv)
    rw [hc, Text.escapeQuotes_of_not_mem (hq v hv), List.count_cons, List.count_append, hopen]
      at hcount
    simp [hvalue] at hcount
  · obtain ⟨inner, hi, hc⟩ := chars_plain h.mem_name fun v hv => hstring ⟨v, hv⟩
    have hinner := List.count_eq_zero.mpr (not_mem_of_all hi (c := '"') (by decide))
    rw [hc] at hcount
    simp [hinner] at hcount

/-- Two equal characters in a row stand on one side of a different one. -/
theorem Text.infix_append {c e : Char} {first rest : List Char} (hc : c ≠ e)
    (h : [c, c] <:+: first ++ e :: rest) : [c, c] <:+: first ∨ [c, c] <:+: rest := by
  induction first with
  | nil =>
    rw [List.nil_append, List.infix_cons_iff] at h
    exact .inr (h.resolve_left fun hp => hc (List.cons_prefix_cons.mp hp).1)
  | cons f first ih =>
    rw [List.cons_append, List.infix_cons_iff] at h
    rcases h with h | h
    · obtain ⟨rfl, hp⟩ := List.cons_prefix_cons.mp h
      cases first with
      | nil => exact absurd (List.cons_prefix_cons.mp hp).1 hc
      | cons g first =>
        obtain ⟨rfl, -⟩ := List.cons_prefix_cons.mp hp
        exact .inl ⟨[], first, rfl⟩
    · exact (ih h).imp_left fun hi => hi.trans (List.suffix_cons f first).isInfix

/-- A double colon of a printed condition stands in its text. -/
theorem Condition.Printable.exists_colons {k : Condition} (h : k.Printable)
    (hi : [':', ':'] <:+: k.chars) :
    ∃ v, k.expected = .string v ∧ [':', ':'] <:+: v.toList := by
  have hm : ∀ {l : List Char}, [':', ':'] <:+: l → ':' ∈ l := fun hl =>
    hl.subset List.mem_cons_self
  by_cases hstring : ∃ v, k.expected = .string v
  · obtain ⟨v, hv⟩ := hstring
    obtain ⟨ho, hc⟩ := chars_quoted h.mem_name hv
    refine ⟨v, hv, ?_⟩
    rw [hc, ← List.cons_append] at hi
    rcases Text.infix_append (by decide) hi with hi | hi
    · have hin := (List.mem_cons.mp (hm hi)).resolve_left (by decide)
      exact absurd hin (not_mem_of_all ho.all_isInner (by decide))
    · rcases Text.infix_append (by decide) hi with hi | hi
      · exact Text.infix_of_infix_escapeQuotes (by decide) (by decide) hi
      · exact absurd (hm hi) (by decide)
  · obtain ⟨inner, hin, hc⟩ := chars_plain h.mem_name fun v hv => hstring ⟨v, hv⟩
    rw [hc] at hi
    have hmem := (List.mem_cons.mp (hm hi)).resolve_left (by decide)
    exact absurd hmem (not_mem_of_all (all_isTail hin) (by decide))

theorem Condition.exists_colons_of_flatMap {ks : List Condition} (h : ∀ k ∈ ks, k.Printable)
    (hi : [':', ':'] <:+: ks.flatMap chars) :
    ∃ k ∈ ks, ∃ v, k.expected = .string v ∧ [':', ':'] <:+: v.toList := by
  induction ks with
  | nil => simp at hi
  | cons k ks ih =>
    rw [List.forall_mem_cons] at h
    rw [List.flatMap_cons] at hi
    have hk : k.chars ∈ bracket := (denoted_chars h.1.mem_name h.1.2.2).mem_bracket
    obtain ⟨middle, hm⟩ := exists_of_mem_bracket hk
    have he : k.chars ++ ks.flatMap chars = '[' :: middle ++ ']' :: ks.flatMap chars := by
      rw [hm]
      simp
    rw [he] at hi
    rcases Text.infix_append (by decide) hi with hi | hi
    · obtain ⟨v, hv, hc⟩ := h.1.exists_colons (hm ▸ hi.trans ⟨[], [']'], rfl⟩)
      exact ⟨k, List.mem_cons_self, v, hv, hc⟩
    · obtain ⟨k', hk', hv⟩ := ih h.2 hi
      exact ⟨k', List.mem_cons_of_mem k hk', hv⟩

namespace Selector

variable {s : Selector}

theorem first_printed_of_no_quote (h : s.Printable)
    (hq : ∀ v ∈ s.strings, '"' ∉ v.toList) : (s.printed h.legible).First s.chars := by
  rw [← text_printed h.legible]
  apply Cutting.first_of_starts
  intro g hg start rest hs he
  obtain ⟨k, hk, rfl⟩ := List.mem_map.mp hg
  exact (h.1 k hk).eq_nil_of_start (fun v hv => hq v (mem_strings hk hv)) hs he

theorem first_printed_of_named (h : s.Printable) {n : String} (ht : s.target = .named n)
    (hn : '"' ∉ n.toList) : (s.printed h.legible).First s.chars := by
  rw [← text_printed h.legible]
  apply Cutting.first_of_suffix
  intro d hd
  have hs : (s.printed h.legible).suffix = some (':' :: ':' :: n.toList) :=
    (printedSuffix_of_named ht).trans (by rw [ht]; rfl)
  rw [hs]
  cases hd' : d.suffix with
  | some t => rfl
  | none =>
    have he : d.brackets.flatten =
        ((s.printed h.legible).brackets.flatten ++ [':']) ++ ':' :: n.toList := by
      rw [Cutting.text_eq, Cutting.text_eq, hs, hd'] at hd
      simpa using hd
    exact absurd (quote_after_colon_flatten d.mem_bracket he) hn

theorem first_printed_of_root (h : s.Printable) (ht : s.target = .root)
    (hc : ∀ v ∈ s.strings, ¬ [':', ':'] <:+: v.toList) :
    (s.printed h.legible).First s.chars := by
  by_cases hk : s.conditions = []
  · exact first_printed_of_unconditional h.legible hk
  · rw [← text_printed h.legible]
    apply Cutting.first_of_suffix
    intro d hd
    have hs : (s.printed h.legible).suffix = none := printedSuffix_of_root ht hk
    rw [hs]
    cases hd' : d.suffix with
    | none => rfl
    | some t =>
      obtain ⟨name, -, -, rfl⟩ := mem_suffix.mp (d.mem_suffix t hd')
      have he : s.conditions.flatMap Condition.chars =
          d.brackets.flatten ++ ':' :: ':' :: name := by
        rw [Cutting.text_eq, Cutting.text_eq, hs, hd', Option.getD_none, List.append_nil] at hd
        exact (hd.trans (List.flatMap_def ..).symm).symm
      obtain ⟨k, hkm, v, hv, hi⟩ :=
        Condition.exists_colons_of_flatMap h.1 ⟨d.brackets.flatten, name, by simp [he]⟩
      exact absurd hi (hc v (mem_strings hkm hv))

/-- Parsing undoes printing for plain selectors, when no value has a quote in it, or the target is
named without a quote, or it is the root and no value has a double colon in it. -/
theorem parse_text_of_printable (s : Selector) (h : s.Printable)
    (hq : (∀ v ∈ s.strings, '"' ∉ v.toList) ∨ (∃ n, s.target = .named n ∧ '"' ∉ n.toList) ∨
      s.target = .root ∧ ∀ v ∈ s.strings, ¬ [':', ':'] <:+: v.toList) :
    parse s.text = .ok s := by
  apply parse_text_of_first h.legible
  rcases hq with hq | ⟨n, ht, hn⟩ | ⟨ht, hc⟩
  · exact first_printed_of_no_quote h hq
  · exact first_printed_of_named h ht hn
  · exact first_printed_of_root h ht hc

/-- A value with brackets, colons, a quote and a last backslash is parsed back before a name. -/
theorem parse_text_of_quoted_value :
    let s : Selector := ⟨[⟨"a", .string "x\"]::m\\"⟩, ⟨"b_1", .number (.integer
      ⟨18446744073709551615, by decide, by decide⟩)⟩, ⟨"c", .truthy⟩], .named "n"⟩
    s.Printable ∧ '"' ∉ "n".toList ∧ parse s.text = .ok s :=
  ⟨by decide, by decide,
    parse_text_of_printable _ (by decide) (.inr (.inl ⟨"n", rfl, by decide⟩))⟩

end Selector

end PropStyling
