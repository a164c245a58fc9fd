import PropStyling.Text.Quoted

/-! # Quoting undone

Escaping gives a content in which each quote stands directly after a backslash, and
escaping and reading are inverse to each other on such contents. Whether a quote is
escaped depends on the text before it only through its last character.
-/
namespace PropStyling.Text

def backslashAfter (backslash : Bool) (text : List Char) : Bool :=
  text.foldl (fun _ c => c == '\\') backslash

@[simp] theorem backslashAfter_nil (backslash : Bool) : backslashAfter backslash [] = backslash :=
  rfl

@[simp] theorem backslashAfter_append_singleton (backslash : Bool) (text : List Char) (c : Char) :
    backslashAfter backslash (text ++ [c]) = (c == '\\') := by
  simp [backslashAfter]

theorem quotesEscapedAfter_append (backslash : Bool) (first rest : List Char) :
    quotesEscapedAfter backslash (first ++ rest) = (quotesEscapedAfter backslash first &&
      quotesEscapedAfter (backslashAfter backslash first) rest) := by
  induction first generalizing backslash with
  | nil => rfl
  | cons c first ih =>
    rw [List.cons_append, quotesEscapedAfter, quotesEscapedAfter, ih, Bool.and_assoc]
    rfl

theorem quotesEscapedAfter_of_head {text : List Char} (first second : Bool)
    (h : text.head? ≠ some '"') :
    quotesEscapedAfter first text = quotesEscapedAfter second text := by
  cases text with
  | nil => rfl
  | cons c rest =>
    have hc : (c != '"') = true := bne_iff_ne.mpr fun he => h (congrArg some he)
    rw [quotesEscapedAfter, quotesEscapedAfter, hc, Bool.true_or, Bool.true_or]

theorem escapeQuotes_eq_flatMap (s : List Char) :
    escapeQuotes s = s.flatMap fun c => if c = '"' then ['\\', '"'] else [c] := by
  induction s with
  | nil => rfl
  | cons c rest ih =>
    rw [escapeQuotes, List.flatMap_cons, ← ih]
    split <;> rfl

theorem quotesEscapedAfter_escapeQuotes (backslash : Bool) (s : List Char) :
    quotesEscapedAfter backslash (escapeQuotes s) = true := by
  induction s generalizing backslash with
  | nil => rfl
  | cons c rest ih =>
    rw [escapeQuotes]
    by_cases hc : c = '"'
    · simp [hc, quotesEscapedAfter, ih]
    · simp [hc, quotesEscapedAfter, ih]

theorem head?_escapeQuotes (s : List Char) : (escapeQuotes s).head? ≠ some '"' := by
  cases s with
  | nil => simp [escapeQuotes]
  | cons c rest => by_cases hc : c = '"' <;> simp [escapeQuotes, hc]

theorem unescapeQuotes_cons {c : Char} {rest : List Char}
    (h : c ≠ '\\' ∨ rest.head? ≠ some '"') :
    unescapeQuotes (c :: rest) = c :: unescapeQuotes rest := by
  rw [unescapeQuotes]
  rintro r rfl rfl
  simp at h

theorem unescapeQuotes_escapeQuotes (s : List Char) : unescapeQuotes (escapeQuotes s) = s := by
  induction s with
  | nil => rfl
  | cons c rest ih =>
    rw [escapeQuotes]
    by_cases hc : c = '"'
    · rw [if_pos hc, unescapeQuotes, ih, hc]
    · rw [if_neg hc, unescapeQuotes_cons (.inr (head?_escapeQuotes rest)), ih]

theorem escapeQuotes_unescapeQuotes {s : List Char} (h : quotesEscaped s = true) :
    escapeQuotes (unescapeQuotes s) = s := by
  unfold quotesEscaped at h
  fun_induction unescapeQuotes s with
  | case1 => rfl
  | case2 rest ih =>
    rw [escapeQuotes, if_pos rfl, ih (by simpa [quotesEscapedAfter] using h)]
  | case3 c rest hne ih =>
    rw [quotesEscapedAfter, Bool.and_eq_true, Bool.or_false, bne_iff_ne] at h
    have hr : quotesEscapedAfter false rest = true := by
      by_cases hc : c = '\\'
      · have hh : rest.head? ≠ some '"' := by
          intro he
          obtain ⟨r, hr⟩ := List.head?_eq_some_iff.mp he
          exact hne r hc hr
        rw [quotesEscapedAfter_of_head false (c == '\\') hh]
        exact h.2
      · rw [← beq_eq_false_iff_ne.mpr hc]
        exact h.2
    rw [escapeQuotes, if_neg h.1, ih hr]

theorem escapeQuotes_ne_nil {s : List Char} (h : s ≠ []) : escapeQuotes s ≠ [] := by
  cases s with
  | nil => exact absurd rfl h
  | cons c rest => by_cases hc : c = '"' <;> simp [escapeQuotes, hc]

theorem unescapeQuotes_ne_nil {s : List Char} (h : s ≠ []) : unescapeQuotes s ≠ [] := by
  fun_cases unescapeQuotes s with
  | case1 => exact absurd rfl h
  | case2 rest => simp
  | case3 c rest => simp

theorem escapeQuotes_of_not_mem {s : List Char} (h : '"' ∉ s) : escapeQuotes s = s := by
  induction s with
  | nil => rfl
  | cons c rest ih =>
    obtain ⟨hc, hr⟩ := not_or.mp (mt List.mem_cons.mpr h)
    rw [escapeQuotes, if_neg (Ne.symm hc), ih hr]

/-- Escaping adds backslashes before quotes only, so it joins no two other characters. -/
theorem infix_of_infix_escapeQuotes {c d : Char} {s : List Char} (hc : c ≠ '\\' ∧ c ≠ '"')
    (hd : d ≠ '\\' ∧ d ≠ '"') (h : [c, d] <:+: escapeQuotes s) : [c, d] <:+: s := by
  have hhead : ∀ {e : Char} {s : List Char}, e ≠ '\\' → [e] <+: escapeQuotes s → [e] <+: s := by
    intro e s he hp
    cases s with
    | nil => exact hp
    | cons f rest =>
      by_cases hf : f = '"'
      · rw [escapeQuotes, if_pos hf] at hp
        exact absurd (List.cons_prefix_cons.mp hp).1 he
      · rw [escapeQuotes, if_neg hf] at hp
        exact List.cons_prefix_cons.mpr ⟨(List.cons_prefix_cons.mp hp).1, List.nil_prefix⟩
  induction s with
  | nil => exact h
  | cons e rest ih =>
    by_cases he : e = '"'
    · rw [escapeQuotes, if_pos he, List.infix_cons_iff, List.infix_cons_iff] at h
      rcases h with h | h | h
      · exact absurd (List.cons_prefix_cons.mp h).1 hc.1
      · exact absurd (List.cons_prefix_cons.mp h).1 hc.2
      · exact (ih h).trans (List.suffix_cons e rest).isInfix
    · rw [escapeQuotes, if_neg he, List.infix_cons_iff] at h
      rcases h with h | h
      · obtain ⟨rfl, hp⟩ := List.cons_prefix_cons.mp h
        exact (List.cons_prefix_cons.mpr ⟨rfl, hhead hd.1 hp⟩).isInfix
      · exact (ih h).trans (List.suffix_cons e rest).isInfix

end PropStyling.Text
