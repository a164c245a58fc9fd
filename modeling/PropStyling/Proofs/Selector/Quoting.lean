import PropStyling.Proofs.Selector.Reprinting

/-! # Quoted literals and texts

A text that is not empty has one quoted literal, the one it is printed as. Printing puts a
backslash before each quote and reading drops the backslashes that stand directly before
one, so runs of backslashes and a backslash at the end come back unchanged. The grammar
admits no other quoted literals.
-/
namespace PropStyling

/-- A literal stands for a text exactly when the text is not empty and is printed as it. -/
theorem Literal.coerce?_eq_string_iff {literal : List Char} {s : String} :
    coerce? literal = some (.string s) ↔ s ≠ "" ∧ literal = (Expected.string s).chars := by
  constructor
  · intro h
    obtain ⟨l, hl, he⟩ := Option.bind_eq_some_iff.mp h
    obtain ⟨hwf, rfl⟩ := wellFormed_of_ofChars? hl
    obtain ⟨content, rfl, rfl⟩ := eq_quoted_of_expected? he
    refine ⟨fun hs => ?_, ?_⟩
    · have hnil : Text.unescapeQuotes content = [] := by simpa using hs
      exact Text.unescapeQuotes_ne_nil hwf.1 hnil
    · rw [Expected.chars, String.toList_ofList, Text.escapeQuotes_unescapeQuotes hwf.2]
      rfl
  · rintro ⟨hs, rfl⟩
    obtain ⟨l, hwf, hc, he⟩ := Expected.literally_string hs
    rw [← hc, coerce?_chars hwf, he]

theorem Pattern.mem_quoted_of_head {s : List Char} (h : s ∈ literal) (hq : s.head? = some '"') :
    s ∈ quoted := by
  obtain ⟨t, rfl⟩ := List.head?_eq_some_iff.mp hq
  rcases mem_literal.mp h with ((hd | hw) | hw) | hq
  · have hc := List.all_eq_true.mp (mem_digits.mp hd).2 '"' List.mem_cons_self
    exact absurd hc (by decide)
  · exact absurd (List.cons.inj (mem_word.mp hw)).1 (by decide)
  · exact absurd (List.cons.inj (mem_word.mp hw)).1 (by decide)
  · exact hq

namespace Literal

/-- Printing a text that is not empty gives a literal of the grammar that stands for it. Each
quoted literal of the grammar stands for a text, and the text is printed as that literal. -/
theorem quoting_inverse :
    (∀ s : String, s ≠ "" → (Expected.string s).text.toList ∈ Pattern.literal ∧
      coerce? (Expected.string s).text.toList = some (.string s)) ∧
    ∀ literal ∈ Pattern.literal, literal.head? = some '"' → ∃ s : String, s ≠ "" ∧
      coerce? literal = some (.string s) ∧ (Expected.string s).text.toList = literal := by
  constructor
  · intro s hs
    rw [Expected.text, String.toList_ofList]
    obtain ⟨l, hwf, hc, -⟩ := Expected.literally_string hs
    exact ⟨mem_literal_iff.mpr ⟨l, hwf, hc⟩, coerce?_eq_string_iff.mpr ⟨hs, rfl⟩⟩
  · intro literal hl hq
    obtain ⟨content, hn, he, rfl⟩ := Pattern.mem_quoted.mp (Pattern.mem_quoted_of_head hl hq)
    have hwf : (quoted content).WellFormed := ⟨hn, he⟩
    have hc := coerce?_chars hwf
    obtain ⟨hs, hchars⟩ := coerce?_eq_string_iff.mp hc
    refine ⟨_, hs, hc, ?_⟩
    rw [Expected.text, String.toList_ofList]
    exact hchars.symm

/-- Backslashes before quotes and at both ends, and quotes side by side. -/
theorem quoting_inverse_of_backslashes :
    let s := "\\\"\"\\\\"
    let literal := "\"\\\\\\\"\\\"\\\"".toList
    s ≠ "" ∧ (Expected.string s).text.toList ∈ Pattern.literal ∧
      coerce? (Expected.string s).text.toList = some (.string s) ∧
      literal ∈ Pattern.literal ∧ literal.head? = some '"' ∧
      ∃ t : String, t ≠ "" ∧ coerce? literal = some (.string t) ∧
        (Expected.string t).text.toList = literal := by
  intro s literal
  have hs : s ≠ "" := by decide
  have hread : ofChars? literal = some (quoted ['\\', '\\', '\\', '"', '\\', '"', '\\']) := by
    decide +kernel
  have hl : literal ∈ Pattern.literal :=
    mem_literal_iff.mpr ⟨_, wellFormed_of_ofChars? hread⟩
  have hq : literal.head? = some '"' := by decide
  obtain ⟨hprinted, hback⟩ := quoting_inverse.1 s hs
  exact ⟨hs, hprinted, hback, hl, hq, quoting_inverse.2 literal hl hq⟩

end Literal

end PropStyling
