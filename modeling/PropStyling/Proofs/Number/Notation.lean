import PropStyling.Number.Basic
import PropStyling.Proofs.Text.Classes

/-! # Numbers told apart by their notation

The notation of a float has a point or an exponent letter in it, so it is never a run
of digits, and it has none of the characters that give a selector its structure.
-/
namespace PropStyling.Binary64

theorem all_isInner_of_digits {s : List Char} (h : s.all Char.isDigit = true) :
    s.all Text.isInner = true :=
  Text.all_imp h fun _ hc => Text.isInner_of_isNameChar (Text.isNameChar_of_isDigit hc)

theorem all_isDigit_replicate (n : Nat) : (List.replicate n '0').all Char.isDigit = true :=
  List.all_eq_true.mpr fun c hc => by rw [List.eq_of_mem_replicate hc]; decide

theorem all_isDigit_toDigits (n : Nat) : (Nat.toDigits 10 n).all Char.isDigit = true :=
  List.all_eq_true.mpr fun c hc => Nat.isDigit_of_mem_toDigits (by decide) (by decide) hc

theorem all_of_subset {p : Char → Bool} {s t : List Char} (h : t.all p = true) (hs : s ⊆ t) :
    s.all p = true :=
  List.all_eq_true.mpr fun c hc => List.all_eq_true.mp h c (hs hc)

theorem plain_facts {digits : List Char} (h : digits.all Char.isDigit = true) (first : Int) :
    (plain digits first).all Text.isInner = true ∧ '.' ∈ plain digits first := by
  have hz := all_isInner_of_digits (all_isDigit_replicate (-first - 1).toNat)
  have hd := all_isInner_of_digits h
  have hpoint : Text.isInner '.' = true := by decide
  have hzero : Text.isInner '0' = true := by decide
  unfold plain
  split
  · refine ⟨?_, by simp⟩
    simp only [List.all_cons, List.all_append, hz, hd, hpoint, hzero, Bool.and_true]
  · have ht := all_of_subset hd (List.take_subset (first.toNat + 1) digits)
    have hr := all_of_subset hd (List.drop_subset (first.toNat + 1) digits)
    have hp := all_isInner_of_digits (all_isDigit_replicate (first.toNat + 1 - digits.length))
    refine ⟨?_, by simp⟩
    simp only [List.all_append, List.all_cons, ht, hp, hpoint, Bool.true_and]
    split
    · decide
    · exact hr

theorem scientific_facts {digits : List Char} (h : digits.all Char.isDigit = true) (first : Int) :
    (scientific digits first).all Text.isInner = true ∧ 'e' ∈ scientific digits first := by
  have hd := all_isInner_of_digits h
  have ht := all_of_subset hd (List.take_subset 1 digits)
  have hr := all_of_subset hd (List.drop_subset 1 digits)
  have hn := all_isInner_of_digits (all_isDigit_toDigits first.natAbs)
  have hpoint : Text.isInner '.' = true := by decide
  have hletter : Text.isInner 'e' = true := by decide
  unfold scientific
  refine ⟨?_, by simp⟩
  simp only [List.all_append, List.all_cons, ht, hn, hletter, Bool.true_and, Bool.and_true,
    Bool.and_eq_true]
  refine ⟨?_, ?_⟩
  · split
    · rfl
    · rw [List.all_cons, hpoint, hr]
      rfl
  · split <;> decide

theorem magnitudeChars_facts (x : Binary64) : x.magnitudeChars.all Text.isInner = true ∧
    ('.' ∈ x.magnitudeChars ∨ 'e' ∈ x.magnitudeChars) := by
  unfold magnitudeChars
  split
  · exact ⟨by decide, .inl (by decide)⟩
  · have hall := all_isDigit_toDigits x.shortest.digits
    have hd : ((Nat.toDigits 10 x.shortest.digits).reverse.dropWhile (· == '0')).reverse.all
        Char.isDigit = true := by
      rw [List.all_reverse]
      refine all_of_subset (List.all_reverse.trans hall) ?_
      exact (List.dropWhile_sublist _).subset
    dsimp only
    split
    · exact (plain_facts hd _).imp_right .inl
    · exact (scientific_facts hd _).imp_right .inr

/-- The notation of a float has no structural character in it. -/
theorem all_isInner_chars (x : Binary64) : x.chars.all Text.isInner = true := by
  rw [chars]
  split
  · rw [List.all_cons, (magnitudeChars_facts x).1]
    decide
  · exact (magnitudeChars_facts x).1

/-- The notation of a float has a point or an exponent letter in it. -/
theorem point_or_letter_mem_chars (x : Binary64) : '.' ∈ x.chars ∨ 'e' ∈ x.chars := by
  rw [chars]
  split
  · exact (magnitudeChars_facts x).2.imp (List.mem_cons_of_mem _) (List.mem_cons_of_mem _)
  · exact (magnitudeChars_facts x).2

end PropStyling.Binary64
