import PropStyling.Proofs.Selector.Bracket

/-! # The shape of a bracket

A bracket is either plain or ends in a quoted literal. Outside the quoted content
no bracket, quote, backslash or colon stands inside it, and the quote that opens
the content is never directly after a backslash. Two facts about texts follow. No
proper end of a bracket is a bracket, so a text is read without choice from right to
left. A proper start of a bracket is a bracket only where an escaped quote of the
content is followed by blanks and a closing bracket.
-/
namespace PropStyling.Pattern
open scoped Computability

/-- A text is cut in one way before the first character outside a class. -/
theorem append_cons_inj {p : Char → Bool} {first other rest tail : List Char} {c d : Char}
    (hf : first.all p = true) (ho : other.all p = true) (hc : p c = false) (hd : p d = false)
    (h : first ++ c :: rest = other ++ d :: tail) : first = other ∧ c = d ∧ rest = tail := by
  have hcr : ∀ e ∈ (c :: rest).head?, p e = false := by rintro e ⟨⟩; exact hc
  have hdt : ∀ e ∈ (d :: tail).head?, p e = false := by rintro e ⟨⟩; exact hd
  have ht := congrArg (List.takeWhile p) h
  rw [Bracket.takeWhile_append_of_head hf hcr, Bracket.takeWhile_append_of_head ho hdt] at ht
  subst ht
  exact ⟨rfl, List.cons.inj (List.append_cancel_left h)⟩

/-- A text is cut in one way after the last character outside a class. -/
theorem append_cons_inj_right {p : Char → Bool} {first other rest tail : List Char} {c d : Char}
    (hr : rest.all p = true) (ht : tail.all p = true) (hc : p c = false) (hd : p d = false)
    (h : first ++ c :: rest = other ++ d :: tail) : first = other ∧ c = d ∧ rest = tail := by
  have hrev := congrArg List.reverse h
  simp only [List.reverse_append, List.reverse_cons, List.append_assoc, List.singleton_append]
    at hrev
  obtain ⟨h1, h2, h3⟩ := append_cons_inj (List.all_reverse.trans hr) (List.all_reverse.trans ht)
    hc hd hrev
  exact ⟨List.reverse_injective h3, h2, List.reverse_injective h1⟩

/-- Of two cuts of a text, they agree, or the first is earlier, or the second is. -/
theorem append_cases {first other rest tail : List Char} (h : first ++ rest = other ++ tail) :
    (first = other ∧ rest = tail) ∨
      (∃ middle, middle ≠ [] ∧ other = first ++ middle ∧ rest = middle ++ tail) ∨
      ∃ middle, middle ≠ [] ∧ first = other ++ middle ∧ tail = middle ++ rest := by
  rcases List.append_eq_append_iff.mp h with ⟨a, ha, hr⟩ | ⟨a, ha, hr⟩
  · by_cases hne : a = []
    · subst hne
      exact .inl ⟨by simpa using ha.symm, by simpa using hr⟩
    · exact .inr (.inl ⟨a, hne, ha, hr⟩)
  · by_cases hne : a = []
    · subst hne
      exact .inl ⟨by simpa using ha, by simpa using hr.symm⟩
    · exact .inr (.inr ⟨a, hne, ha, hr⟩)

/-- A character of a text stands in the second part of a cut or in the first one. -/
theorem append_cons_cases {first rest before tail : List Char} {d : Char}
    (h : first ++ rest = before ++ d :: tail) :
    (∃ middle, before = first ++ middle ∧ rest = middle ++ d :: tail) ∨
      ∃ middle, first = before ++ d :: middle ∧ tail = middle ++ rest := by
  rcases append_cases h with ⟨rfl, rfl⟩ | ⟨a, -, ha, hr⟩ | ⟨a, hne, ha, ht⟩
  · exact .inl ⟨[], by simp, rfl⟩
  · exact .inl ⟨a, ha, hr⟩
  · obtain ⟨e, a, rfl⟩ := List.exists_cons_of_ne_nil hne
    obtain ⟨rfl, hr⟩ := List.cons.inj ht
    exact .inr ⟨a, ha, hr⟩

def Opening (text : List Char) : Prop :=
  ∃ before ∈ blanks, ∃ name ∈ Pattern.name, ∃ after ∈ blanks, ∃ between ∈ blanks,
    text = before ++ (name ++ (after ++ '=' :: between))

/-- A bracket without its name and plain literal: plain, or with a quoted content. -/
inductive Shape : List Char → Prop
  | plain {inner : List Char} (hi : inner.all Text.isInner = true) : Shape ('[' :: (inner ++ [']']))
  | quoted {opening content last : List Char} (ho : Opening opening) (hc : content ≠ [])
      (he : Text.quotesEscaped content = true) (hl : last ∈ blanks) :
      Shape ('[' :: (opening ++ '"' :: (content ++ '"' :: (last ++ [']']))))

theorem all_isInner_blanks {s : List Char} (h : s ∈ blanks) : s.all Text.isInner = true :=
  Text.all_imp (mem_blanks.mp h) fun _ hc => Text.isInner_of_isBlank hc

theorem all_isInner_name {s : List Char} (h : s ∈ name) : s.all Text.isInner = true :=
  Text.all_imp (mem_name.mp h).2 fun _ hc => Text.isInner_of_isNameChar hc

theorem Opening.all_isInner {text : List Char} (h : Opening text) :
    text.all Text.isInner = true := by
  obtain ⟨before, hb, name, hn, after, ha, between, hw, rfl⟩ := h
  simp only [List.all_append, List.all_cons, Bool.and_eq_true]
  exact ⟨all_isInner_blanks hb, all_isInner_name hn, all_isInner_blanks ha, by decide,
    all_isInner_blanks hw⟩

theorem shape_of_mem {s : List Char} (h : s ∈ bracket) : Shape s := by
  obtain ⟨name, literal, h⟩ := mem_bracket.mp h
  cases h with
  | @bare before name after hb hn ha =>
    have hi : (before ++ (name ++ after)).all Text.isInner = true := by
      simp only [List.all_append, Bool.and_eq_true]
      exact ⟨all_isInner_blanks hb, all_isInner_name hn, all_isInner_blanks ha⟩
    simpa using Shape.plain hi
  | @valued before name after between literal last hb hn ha hw hm hz =>
    have hplain : literal.all Text.isNameChar = true →
        Shape ('[' :: (before ++ (name ++ (after ++ '=' ::
          (between ++ (literal ++ (last ++ [']']))))))) := by
      intro hl
      have hall : literal.all Text.isInner = true :=
        Text.all_imp hl fun _ hc => Text.isInner_of_isNameChar hc
      have hi : (before ++ (name ++ (after ++ '=' :: (between ++ (literal ++ last))))).all
          Text.isInner = true := by
        simp only [List.all_append, List.all_cons, Bool.and_eq_true]
        exact ⟨all_isInner_blanks hb, all_isInner_name hn, all_isInner_blanks ha, by decide,
          all_isInner_blanks hw, hall, all_isInner_blanks hz⟩
      simpa using Shape.plain hi
    obtain ⟨l, hl, rfl⟩ := Literal.mem_literal_iff.mp hm
    cases l with
    | digits text =>
      exact hplain (Text.all_imp hl.2 fun _ hc => Text.isNameChar_of_isDigit hc)
    | word text =>
      apply hplain
      apply List.all_eq_true.mpr
      intro c hc
      exact Text.isNameChar_of_isLetter (Literal.isLetter_of_mem_word hl hc)
    | quoted content =>
      have ho : Opening (before ++ (name ++ (after ++ '=' :: between))) :=
        ⟨before, hb, name, hn, after, ha, between, hw, rfl⟩
      simpa [Literal.chars] using Shape.quoted ho hl.1 hl.2 hz

/-- A quoted content may be replaced by any other. -/
theorem quoted_mem_bracket {opening content last : List Char} (ho : Opening opening)
    (hc : content ≠ []) (he : Text.quotesEscaped content = true) (hl : last ∈ blanks) :
    '[' :: (opening ++ '"' :: (content ++ '"' :: (last ++ [']']))) ∈ bracket := by
  obtain ⟨before, hb, name, hn, after, ha, between, hw, rfl⟩ := ho
  have hm : (Literal.quoted content).chars ∈ literal :=
    Literal.mem_literal_iff.mpr ⟨.quoted content, ⟨hc, he⟩, rfl⟩
  refine mem_bracket.mpr ⟨name, some (Literal.quoted content).chars, ?_⟩
  simpa [Literal.chars] using Captures.valued hb hn ha hw hm hl

/-- The quote after an opening is not escaped. -/
theorem Opening.backslashAfter {text : List Char} (h : Opening text) (backslash : Bool) :
    Text.backslashAfter backslash text = false := by
  have hi := h.all_isInner
  have hn : text ≠ [] := by
    obtain ⟨before, hb, name, hn, after, ha, between, hw, rfl⟩ := h
    simp
  obtain ⟨first, c, rfl⟩ := (List.eq_nil_or_concat text).resolve_left hn
  rw [List.concat_eq_append] at h hi ⊢
  rw [Text.backslashAfter_append_singleton, beq_eq_false_iff_ne]
  rw [List.all_append, Bool.and_eq_true] at hi
  exact Text.ne_of_class (List.all_eq_true.mp hi.2 c List.mem_cons_self) (by decide)

theorem not_escaped_after_opening {before opening content : List Char} (ho : Opening opening) :
    Text.quotesEscaped (before ++ (opening ++ '"' :: content)) = false := by
  rw [Bool.eq_false_iff]
  intro h
  rw [Text.quotesEscaped, Text.quotesEscapedAfter_append, Bool.and_eq_true,
    Text.quotesEscapedAfter_append, Bool.and_eq_true, ho.backslashAfter, Text.quotesEscapedAfter]
    at h
  exact absurd h.2.2 (by simp)

/-- A bracket starts with an opening bracket and ends with a closing one. -/
theorem exists_of_mem_bracket {s : List Char} (h : s ∈ bracket) :
    ∃ middle, s = '[' :: (middle ++ [']']) := by
  cases shape_of_mem h with
  | @plain inner hi => exact ⟨inner, rfl⟩
  | @quoted opening content last ho hc he hl =>
    exact ⟨opening ++ '"' :: (content ++ '"' :: last), by simp⟩

theorem not_mem_of_all {p : Char → Bool} {s : List Char} {c : Char} (hs : s.all p = true)
    (hc : p c = false) : c ∉ s := fun hm =>
  Bool.false_ne_true (hc.symm.trans (List.all_eq_true.mp hs c hm))

def isTail (c : Char) : Bool := Text.isInner c || c == ']'

theorem all_isTail {s : List Char} (h : s.all Text.isInner = true) :
    (s ++ [']']).all isTail = true := by
  rw [List.all_append, Bool.and_eq_true]
  refine ⟨List.all_eq_true.mpr fun c hc => ?_, by decide⟩
  rw [isTail, List.all_eq_true.mp h c hc, Bool.true_or]

/-- No proper end of a bracket is a bracket. -/
theorem bracket_of_end {before s t : List Char} (hs : s ∈ bracket) (ht : t ∈ bracket)
    (h : s = before ++ t) : before = [] := by
  by_contra hne
  obtain ⟨c, before, rfl⟩ := List.exists_cons_of_ne_nil hne
  cases shape_of_mem hs with
  | @plain inner hi =>
    obtain ⟨middle, rfl⟩ := exists_of_mem_bracket ht
    have he : inner ++ [']'] = before ++ '[' :: (middle ++ [']']) := (List.cons.inj h).2
    have hm : '[' ∈ inner ++ [']'] := he ▸ List.mem_append_right _ List.mem_cons_self
    exact not_mem_of_all (all_isTail hi) (by decide) hm
  | @quoted opening content last ho hc hq hl =>
    have he : opening ++ '"' :: content ++ '"' :: (last ++ [']']) = before ++ t := by
      simpa using (List.cons.inj h).2
    have hlast := all_isTail (all_isInner_blanks hl)
    cases shape_of_mem ht with
    | @plain inner hi =>
      have hcd := append_cons_inj_right hlast (all_isTail hi) (by decide) (by decide) he
      exact absurd hcd.2.1 (by decide)
    | @quoted opening' content' last' ho' hc' hq' hl' =>
      have he' : opening ++ '"' :: content ++ '"' :: (last ++ [']']) =
          before ++ '[' :: (opening' ++ '"' :: content') ++ '"' :: (last' ++ [']']) := by
        simpa using he
      -- both quotes close a literal, so the texts before them agree
      have hfront := (append_cons_inj_right hlast (all_isTail (all_isInner_blanks hl'))
        (by decide) (by decide) he').1
      rcases append_cons_cases hfront with ⟨a, -, ha⟩ | ⟨a, ha, -⟩
      · cases a with
        | nil => exact absurd (List.cons.inj ha).1 (by decide)
        | cons d a =>
          have hcontent : content = a ++ ['['] ++ (opening' ++ '"' :: content') := by
            simpa using (List.cons.inj ha).2
          rw [hcontent, not_escaped_after_opening ho'] at hq
          exact Bool.false_ne_true hq
      · have hm : '[' ∈ opening := ha ▸ List.mem_append_right before List.mem_cons_self
        exact not_mem_of_all ho.all_isInner (by decide) hm

/-- Characters of a class stand before the first character outside it. -/
theorem exists_append_of_all {p : Char → Bool} {first rest before tail : List Char} {d : Char}
    (hf : first.all p = true) (hd : p d = false) (h : first ++ rest = before ++ d :: tail) :
    ∃ middle, before = first ++ middle ∧ rest = middle ++ d :: tail := by
  rcases append_cons_cases h with hm | ⟨a, ha, -⟩
  · exact hm
  · exact absurd (ha ▸ List.mem_append_right before List.mem_cons_self) (not_mem_of_all hf hd)

/-- A bracket that another bracket properly continues ends at an escaped quote of its content. -/
theorem bracket_of_start {s t rest : List Char} (hs : s ∈ bracket) (ht : t ∈ bracket)
    (h : t = s ++ rest) (hne : rest ≠ []) : ∃ opening content last content' last',
      Opening opening ∧ last ∈ blanks ∧ last' ∈ blanks ∧ content ≠ [] ∧
      Text.quotesEscaped content = true ∧
      s = '[' :: (opening ++ '"' :: (content ++ '"' :: (last ++ [']']))) ∧
      rest = content' ++ '"' :: (last' ++ [']']) ∧
      Text.quotesEscaped (content ++ '"' :: (last ++ ']' :: content')) = true := by
  cases shape_of_mem ht with
  | @plain inner hi =>
    obtain ⟨middle, rfl⟩ := exists_of_mem_bracket hs
    obtain ⟨first, c, rfl⟩ := (List.eq_nil_or_concat rest).resolve_left hne
    have he : inner ++ [']'] = (middle ++ ']' :: first) ++ [c] := by simpa using h
    have hmem : ']' ∈ inner := by
      rw [(List.append_inj' he rfl).1]
      exact List.mem_append_right middle List.mem_cons_self
    exact absurd hmem (not_mem_of_all hi (by decide))
  | @quoted opening' content' last' ho' hc' hq' hl' =>
    cases shape_of_mem hs with
    | @plain inner hi =>
      have he : opening' ++ '"' :: (content' ++ '"' :: (last' ++ [']'])) =
          inner ++ ']' :: rest := by simpa using h
      exact absurd (append_cons_inj ho'.all_isInner hi (by decide) (by decide) he).2.1 (by decide)
    | @quoted opening content last ho hc hq hl =>
      have he : opening' ++ '"' :: (content' ++ '"' :: (last' ++ [']'])) =
          opening ++ '"' :: (content ++ '"' :: (last ++ ']' :: rest)) := by simpa using h
      obtain ⟨rfl, -, htail⟩ :=
        append_cons_inj ho'.all_isInner ho.all_isInner (by decide) (by decide) he
      have hlast := all_isInner_blanks hl
      have hlast' := all_isInner_blanks hl'
      have hsame : last' ++ [']'] ≠ last ++ ']' :: rest := fun hlr =>
        hne (append_cons_inj hlast' hlast (by decide) (by decide) hlr).2.2.symm
      rcases append_cons_cases htail with ⟨a, -, ha⟩ | ⟨a, ha, ha'⟩
      · cases a with
        | nil => exact absurd (List.cons.inj ha).2 hsame
        | cons d a =>
          have hm : '"' ∈ last' ++ [']'] :=
            (List.cons.inj ha).2.symm ▸ List.mem_append_right a List.mem_cons_self
          exact absurd hm (not_mem_of_all (all_isTail hlast') (by decide))
      · obtain ⟨b, rfl, hb⟩ := exists_append_of_all hlast (by decide) ha'
        cases b with
        | nil => exact absurd (List.cons.inj hb).1 (by decide)
        | cons e b =>
          obtain ⟨rfl, hrest⟩ := List.cons.inj hb
          exact ⟨opening', content, last, b, last', ho', hl, hl', hc, hq, rfl, hrest, ha ▸ hq'⟩

/-- A colon of a bracket stands in its quoted content. -/
theorem quote_after_colon {g before after : List Char} (hg : g ∈ bracket)
    (h : g = before ++ ':' :: after) : '"' ∈ after := by
  cases shape_of_mem hg with
  | @plain inner hi =>
    have hm : ':' ∈ '[' :: (inner ++ [']']) := h ▸ List.mem_append_right before List.mem_cons_self
    have ht := (List.mem_cons.mp hm).resolve_left (by decide)
    exact absurd ht (not_mem_of_all (all_isTail hi) (by decide))
  | @quoted opening content last ho hc hq hl =>
    have he : ('[' :: (opening ++ '"' :: content)) ++ '"' :: (last ++ [']']) =
        before ++ ':' :: after := by simpa using h
    have hlast := all_isTail (all_isInner_blanks hl)
    rcases append_cons_cases he with ⟨a, -, ha⟩ | ⟨a, -, ha⟩
    · have hm : ':' ∈ '"' :: (last ++ [']']) := ha ▸ List.mem_append_right a List.mem_cons_self
      have ht := (List.mem_cons.mp hm).resolve_left (by decide)
      exact absurd ht (not_mem_of_all hlast (by decide))
    · rw [ha]
      exact List.mem_append_right a List.mem_cons_self

theorem quote_after_colon_flatten {gs : List (List Char)} {before after : List Char}
    (hg : ∀ g ∈ gs, g ∈ bracket) (h : gs.flatten = before ++ ':' :: after) : '"' ∈ after := by
  induction gs generalizing before with
  | nil => simp at h
  | cons g gs ih =>
    rw [List.forall_mem_cons] at hg
    rw [List.flatten_cons] at h
    rcases append_cons_cases h with ⟨a, -, ha⟩ | ⟨a, ha, hr⟩
    · exact ih hg.2 ha
    · rw [hr]
      exact List.mem_append_left _ (quote_after_colon hg.1 ha)

end PropStyling.Pattern
