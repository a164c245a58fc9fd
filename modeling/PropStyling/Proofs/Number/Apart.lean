import PropStyling.Proofs.Number.Magnitude

/-! # Integers that share a double

Rounding to 53 significant bits keeps the integers of at most 53 bits and merges larger ones.
It never passes a power of two, and rounding again changes nothing. An integer with a longer
spacing than two around it is merged with its neighbours or with the integer it is rounded
to. At spacing two only the odd multiples of two are left alone, since a tie goes to the
even multiples.
-/
namespace PropStyling
namespace Binary64

theorem rounded_of_lt {n : ℕ} (h : n < 2 ^ 53) : rounded n = n := by
  have hlog : n.log2 ≤ 52 := by
    by_cases hn : n = 0
    · subst hn
      decide
    · exact Nat.le_of_lt_succ ((Nat.log2_lt hn).mpr h)
  rw [rounded, spacing, Nat.sub_eq_zero_of_le hlog, pow_zero, roundDiv_one, mul_one]

/-- An integer of at most 53 significant bits is kept. -/
theorem rounded_mul_two_pow {k : ℕ} (hlo : 2 ^ 52 ≤ k) (hhi : k ≤ 2 ^ 53) (e : ℕ) :
    rounded (k * 2 ^ e) = k * 2 ^ e := by
  rcases Nat.lt_or_eq_of_le hhi with hlt | rfl
  · have he := Nat.two_pow_pos e
    rw [rounded_eq (Nat.mul_le_mul_right _ hlo) (Nat.mul_lt_mul_of_pos_right hlt he),
      roundDiv_mul _ he]
  · have he : 2 ^ 53 * 2 ^ e = 2 ^ 52 * 2 ^ (e + 1) := by
      rw [← pow_add, ← pow_add, show 53 + e = 52 + (e + 1) by omega]
    have hlt : 2 ^ 52 * 2 ^ (e + 1) < 2 ^ 53 * 2 ^ (e + 1) :=
      Nat.mul_lt_mul_of_pos_right (by decide) (Nat.two_pow_pos _)
    rw [he, rounded_eq le_rfl hlt, roundDiv_mul _ (Nat.two_pow_pos _)]

theorem rounded_rounded (n : ℕ) : rounded (rounded n) = rounded n := by
  by_cases h : n < 2 ^ 53
  · rw [rounded_of_lt h, rounded_of_lt h]
  · obtain ⟨e, -, hlo, hhi⟩ := exists_binade (not_lt.mp h)
    rw [rounded_eq hlo hhi]
    have he := Nat.two_pow_pos e
    exact rounded_mul_two_pow (le_roundDiv he hlo) (roundDiv_le he (by omega)) e

/-- Rounding does not pass a power of two. -/
theorem rounded_le_two_pow {n a : ℕ} (h : n ≤ 2 ^ a) : rounded n ≤ 2 ^ a := by
  by_cases hn : n < 2 ^ 53
  · rwa [rounded_of_lt hn]
  · obtain ⟨e, -, hlo, hhi⟩ := exists_binade (not_lt.mp hn)
    rw [← pow_add] at hlo
    have ha : 52 + e ≤ a := (Nat.pow_le_pow_iff_right (by decide)).mp (hlo.trans h)
    rcases Nat.lt_or_eq_of_le ha with ha | rfl
    · refine (rounded_bounds (by rwa [pow_add] at hlo) hhi).2.trans ?_
      rw [← pow_add]
      exact Nat.pow_le_pow_right (by decide) (by omega)
    · rw [le_antisymm h hlo, pow_add, rounded_mul_two_pow le_rfl (by decide)]

/-- Integers that no other one is rounded to: those of at most 53 bits, and with 54 bits those whose
two neighbours are rounded away. -/
def Apart (n : ℕ) : Prop := n < 2 ^ 53 ∨ n < 2 ^ 54 ∧ n % 4 = 2

instance : DecidablePred Apart := fun n =>
  inferInstanceAs (Decidable (n < 2 ^ 53 ∨ n < 2 ^ 54 ∧ n % 4 = 2))

theorem rounded_of_apart {n : ℕ} (h : Apart n) : rounded n = n := by
  by_cases hn : n < 2 ^ 53
  · exact rounded_of_lt hn
  · obtain ⟨hlt, hmod⟩ := h.resolve_left hn
    obtain ⟨k, rfl⟩ : ∃ k, n = k * 2 ^ 1 := ⟨n / 2, by omega⟩
    exact rounded_mul_two_pow (by omega) (by omega) 1

theorem eq_of_rounded_eq_of_apart {m n : ℕ} (hn : Apart n) (h : rounded m = n) : m = n := by
  by_cases hm : m < 2 ^ 53
  · rwa [rounded_of_lt hm] at h
  · obtain ⟨e, he, hlo, hhi⟩ := exists_binade (not_lt.mp hm)
    have hb := (rounded_bounds hlo hhi).1
    have hpow : 2 ^ 1 ≤ 2 ^ e := Nat.pow_le_pow_right (by decide) he
    obtain ⟨hlt, hmod⟩ : n < 2 ^ 54 ∧ n % 4 = 2 := hn.resolve_left (by omega)
    have he1 : e = 1 := by
      by_contra hne
      have hpow : 2 ^ 2 ≤ 2 ^ e := Nat.pow_le_pow_right (by decide) (by omega)
      omega
    subst he1
    rw [rounded_eq hlo hhi, roundDiv] at h
    split at h
    · omega
    · split at h <;> omega

/-- The integer after a kept one that is not apart is rounded down. -/
theorem rounded_add_one {n : ℕ} (hn : ¬ Apart n) (h : rounded n = n) : rounded (n + 1) = n := by
  rw [Apart, not_or, not_lt, not_and] at hn
  obtain ⟨e, he, hlo, hhi⟩ := exists_binade hn.1
  have hpos := Nat.two_pow_pos e
  have hpow : 2 ^ 1 ≤ 2 ^ e := Nat.pow_le_pow_right (by decide) he
  rw [rounded_eq hlo hhi] at h
  generalize roundDiv n (2 ^ e) = k at h
  have hk : k + 1 ≤ 2 ^ 53 := by
    refine Nat.succ_le_of_lt (Nat.lt_of_mul_lt_mul_right (a := 2 ^ e) ?_)
    rwa [h]
  have hnext : (k + 1) * 2 ^ e ≤ 2 ^ 53 * 2 ^ e := Nat.mul_le_mul_right _ hk
  rw [Nat.succ_mul, h] at hnext
  have hdown : roundDiv (n + 1) (2 ^ e) = k := by
    rcases Nat.lt_or_eq_of_le he with he2 | rfl
    · have hpow : 2 ^ 2 ≤ 2 ^ e := Nat.pow_le_pow_right (by decide) he2
      exact le_antisymm (roundDiv_le hpos (by omega)) (le_roundDiv hpos (by omega))
    · rw [roundDiv]
      split
      · omega
      · split <;> omega
  rw [rounded_eq (hlo.trans (Nat.le_succ n)) (by omega), hdown, h]

/-- An integer that is not apart is rounded together with another one. -/
theorem exists_rounded_eq {n : ℕ} (hn : ¬ Apart n) (hlt : n < 2 ^ 64) :
    ∃ m, m ≠ n ∧ rounded m = rounded n ∧ m < 2 ^ 64 ∧ (n ≤ 2 ^ 63 → m ≤ 2 ^ 63) := by
  have h64 : rounded n ≤ 2 ^ 64 := rounded_le_two_pow hlt.le
  have h63 : n ≤ 2 ^ 63 → rounded n ≤ 2 ^ 63 := rounded_le_two_pow
  by_cases hkept : rounded n = n
  · by_cases hmax : n = 2 ^ 63
    · subst hmax
      exact ⟨2 ^ 63 - 1, by decide, by decide, by decide, fun _ => by decide⟩
    · have hne : n ≠ 2 ^ 64 - 1 := by
        rintro rfl
        exact absurd hkept (by decide)
      exact ⟨n + 1, by omega, (rounded_add_one hn hkept).trans hkept.symm, by omega, by omega⟩
  · by_cases hmax : rounded n = 2 ^ 64
    · -- The nearest double is out of range, but an integer next to the greatest one is not.
      by_cases hlast : n = 2 ^ 64 - 1
      · exact ⟨2 ^ 64 - 2, by omega, Eq.trans (by decide) hmax.symm, by decide, by omega⟩
      · exact ⟨2 ^ 64 - 1, by omega, Eq.trans (by decide) hmax.symm, by decide, by omega⟩
    · exact ⟨rounded n, hkept, rounded_rounded n, by omega, h63⟩

end Binary64

end PropStyling
