import Mathlib.Algebra.Order.Field.Power
import Mathlib.Data.Rat.Cast.Order
import Mathlib.Tactic.Positivity
import Mathlib.Tactic.Ring
import PropStyling.Proofs.Number.Range

/-! # Doubles as rational numbers

The magnitude of a double determines its mantissa and its exponent, because the mantissa
has all its 53 bits unless the exponent is least. The nearest double of an integer denotes
the integer rounded to 53 significant bits. Its mantissa is found at the exponent that
leaves 53 bits, or one further up when rounding those gives a power of two. So rounding
stays between the two powers of two around the integer.
-/
namespace PropStyling

theorem le_roundDiv {num den k : ℕ} (h : 0 < den) (hk : k * den ≤ num) : k ≤ roundDiv num den := by
  have hb := (roundDiv_bounds num h).2
  by_contra hlt
  have hm := succ_mul_le_mul (not_le.mp hlt) den
  omega

theorem roundDiv_le {num den k : ℕ} (h : 0 < den) (hk : 2 * num < 2 * (k * den) + den) :
    roundDiv num den ≤ k := by
  have hb := (roundDiv_bounds num h).1
  by_contra hlt
  have hm := succ_mul_le_mul (not_le.mp hlt) den
  omega

theorem roundDiv_mul (k : ℕ) {den : ℕ} (h : 0 < den) : roundDiv (k * den) den = k :=
  le_antisymm (roundDiv_le h (Nat.lt_add_of_pos_right h)) (le_roundDiv h le_rfl)

namespace Binary64
variable {x y : Binary64}

def magnitude (x : Binary64) : ℚ := x.mantissa * 2 ^ x.exponent

def toRat (x : Binary64) : ℚ := if x.negative then -x.magnitude else x.magnitude

theorem magnitude_nonneg (x : Binary64) : 0 ≤ x.magnitude := by
  unfold magnitude
  positivity

theorem magnitude_eq_zero : x.magnitude = 0 ↔ x.mantissa = 0 := by
  rw [magnitude, mul_eq_zero, or_iff_left (by positivity), Nat.cast_eq_zero]

/-- Of equal magnitudes neither has the larger exponent, since its mantissa would be too short. -/
theorem exponent_le_of_magnitude (h : x.magnitude = y.magnitude) : y.exponent ≤ x.exponent := by
  by_contra hlt
  rw [not_le] at hlt
  obtain ⟨k, hk⟩ := Int.le.dest (Int.add_one_le_of_lt hlt)
  have hleast := x.le_exponent
  have hy : 0x10000000000000 ≤ y.mantissa := y.normal.resolve_right (by omega)
  have hm : x.mantissa = y.mantissa * 2 ^ (k + 1) := by
    have hexp : y.exponent = x.exponent + (k + 1 : ℕ) := by omega
    rw [magnitude, magnitude, hexp, zpow_add₀ two_ne_zero, zpow_natCast, mul_comm (2 ^ x.exponent),
      ← mul_assoc] at h
    exact_mod_cast mul_right_cancel₀ (by positivity) h
  have hx := x.mantissa_lt
  have hpow : 1 ≤ 2 ^ k := Nat.one_le_two_pow
  have hge : y.mantissa * 2 ≤ y.mantissa * 2 ^ (k + 1) := by
    rw [pow_succ]
    exact Nat.mul_le_mul_left _ (by omega)
  omega

theorem magnitude_inj :
    x.magnitude = y.magnitude ↔ x.mantissa = y.mantissa ∧ x.exponent = y.exponent := by
  constructor
  · intro h
    have he := le_antisymm (exponent_le_of_magnitude h.symm) (exponent_le_of_magnitude h)
    rw [magnitude, magnitude, he] at h
    exact ⟨by exact_mod_cast mul_right_cancel₀ (by positivity) h, he⟩
  · rintro ⟨hm, he⟩
    rw [magnitude, magnitude, hm, he]

theorem abs_toRat (x : Binary64) : |x.toRat| = x.magnitude := by
  rw [toRat]
  split
  · rw [abs_neg, abs_of_nonneg x.magnitude_nonneg]
  · exact abs_of_nonneg x.magnitude_nonneg

theorem toRat_of_magnitude_zero (h : x.magnitude = 0) : x.toRat = 0 := by
  rw [toRat, h, neg_zero, ite_self]

def spacing (n : ℕ) : ℕ := 2 ^ (n.log2 - 52)

/-- An integer rounded to 53 significant bits, a tie to the even one. -/
def rounded (n : ℕ) : ℕ := roundDiv n (spacing n) * spacing n

theorem rounded_zero : rounded 0 = 0 := by
  simp [rounded, roundDiv]

theorem ofParts?_eq_some {negative : Bool} {mantissa : ℕ} {exponent : ℤ}
    (h : ofParts? negative mantissa exponent = some x) :
    x.negative = negative ∧ x.mantissa = mantissa ∧ x.exponent = exponent := by
  rw [ofParts?] at h
  split at h
  · cases h
    exact ⟨rfl, rfl, rfl⟩
  · cases h

theorem mantissaAt_neg_natCast (n e : ℕ) : mantissaAt n 1 (-e) = n * 2 ^ e := by
  rw [mantissaAt, neg_neg, Int.toNat_natCast, Int.toNat_of_nonpos (by omega), Nat.shiftLeft_eq,
    Nat.shiftLeft_zero, roundDiv_one]

theorem leastExponent_one (n : ℕ) : leastExponent n 1 = (n.log2 : ℤ) - 53 := by
  rw [leastExponent, show Nat.log2 1 = 0 by decide]
  omega

/-- At `i` places below its first bit an integer has `i + 1` bits, or rounds up to one more. -/
theorem mantissaAt_bounds {n : ℕ} (hn : n ≠ 0) (i : ℕ) :
    2 ^ i ≤ mantissaAt n 1 (n.log2 - i) ∧ mantissaAt n 1 (n.log2 - i) ≤ 2 ^ (i + 1) := by
  have hlo := Nat.log2_self_le hn
  have hhi := Nat.lt_log2_self (n := n)
  generalize n.log2 = a at *
  rcases Nat.le_total i a with ha | ha
  · obtain ⟨e, rfl⟩ := Nat.exists_eq_add_of_le ha
    rw [show ((i + e : ℕ) : ℤ) - i = (e : ℤ) by omega, mantissaAt_natCast]
    have he : 0 < 2 ^ e := Nat.two_pow_pos e
    rw [add_right_comm, pow_add] at hhi
    rw [pow_add] at hlo
    have hle : roundDiv n (2 ^ e) ≤ 2 ^ (i + 1) := roundDiv_le he (by omega)
    exact ⟨le_roundDiv he hlo, hle⟩
  · obtain ⟨e, rfl⟩ := Nat.exists_eq_add_of_le ha
    rw [show (a : ℤ) - (a + e : ℕ) = -(e : ℤ) by omega, mantissaAt_neg_natCast, add_right_comm,
      pow_add, pow_add]
    exact ⟨Nat.mul_le_mul_right _ hlo, Nat.mul_le_mul_right _ hhi.le⟩

theorem mantissaAt_mul_spacing (n : ℕ) :
    (mantissaAt n 1 (n.log2 - 52) : ℚ) * 2 ^ ((n.log2 : ℤ) - 52) = rounded n := by
  rw [rounded, spacing]
  generalize n.log2 = a
  rcases Nat.le_total 52 a with ha | ha
  · obtain ⟨e, rfl⟩ := Nat.exists_eq_add_of_le ha
    rw [show ((52 + e : ℕ) : ℤ) - 52 = (e : ℤ) by omega, mantissaAt_natCast,
      Nat.add_sub_cancel_left, zpow_natCast]
    push_cast
    rfl
  · obtain ⟨e, he⟩ := Nat.exists_eq_add_of_le ha
    rw [show (a : ℤ) - 52 = -(e : ℤ) by omega, mantissaAt_neg_natCast, Nat.sub_eq_zero_of_le ha,
      pow_zero, roundDiv_one, zpow_neg, zpow_natCast]
    push_cast
    rw [mul_assoc, mul_inv_cancel₀ (by positivity)]

/-- The nearest double of an integer has its 53 first bits as its mantissa, unless rounding them
gives one bit more. -/
theorem nearest?_cases {negative : Bool} {n : ℕ} (hn : n ≠ 0) (h : nearest? negative n 1 = some x) :
    x.negative = negative ∧
      (x.exponent = n.log2 - 52 ∧ x.mantissa = mantissaAt n 1 (n.log2 - 52) ∨
        x.exponent = n.log2 - 51 ∧ x.mantissa = 2 ^ 52 ∧
          mantissaAt n 1 (n.log2 - 52) = 2 ^ 53) := by
  have h53 : 2 ^ 53 ≤ mantissaAt n 1 (n.log2 - 53) := (mantissaAt_bounds hn 53).1
  have h52 : 2 ^ 52 ≤ mantissaAt n 1 (n.log2 - 52) ∧ mantissaAt n 1 (n.log2 - 52) ≤ 2 ^ 53 :=
    mantissaAt_bounds hn 52
  have h51 : mantissaAt n 1 (n.log2 - 51) ≤ 2 ^ 52 := (mantissaAt_bounds hn 51).2
  rw [nearest?, if_neg hn] at h
  simp only [leastExponent_one, List.findSome?_cons, List.findSome?_nil,
    show (n.log2 : ℤ) - 53 + 1 = n.log2 - 52 by omega,
    show (n.log2 : ℤ) - 53 + 2 = n.log2 - 51 by omega] at h
  -- The least exponent leaves a bit too many, so the search always goes past it.
  cases hleast : ofParts? negative (mantissaAt n 1 (n.log2 - 53)) (n.log2 - 53) with
  | some y =>
    have hy := y.mantissa_lt
    rw [(ofParts?_eq_some hleast).2.1] at hy
    omega
  | none =>
    cases hnext : ofParts? negative (mantissaAt n 1 (n.log2 - 52)) (n.log2 - 52) with
    | some y =>
      rw [hleast, hnext] at h
      cases h
      obtain ⟨hs, hm, he⟩ := ofParts?_eq_some hnext
      exact ⟨hs, .inl ⟨he, hm⟩⟩
    | none =>
      rw [hleast, hnext] at h
      cases hlast : ofParts? negative (mantissaAt n 1 (n.log2 - 51)) (n.log2 - 51) with
      | none =>
        rw [hlast] at h
        cases h
      | some y =>
        rw [hlast] at h
        cases h
        obtain ⟨hs, hm, he⟩ := ofParts?_eq_some hlast
        have hnone := Option.isSome_eq_false_iff.mpr (Option.isNone_iff_eq_none.mpr hnext)
        have hfull := mt ofParts?_isSome_iff.mpr (Bool.eq_false_iff.mp hnone)
        have hle := x.exponent_le
        have hnormal := x.normal
        exact ⟨hs, .inr ⟨he, by omega, by omega⟩⟩

/-- The nearest double of an integer is the integer rounded to 53 significant bits. -/
theorem magnitude_of_nearest? {negative : Bool} {n : ℕ} (h : nearest? negative n 1 = some x) :
    x.negative = negative ∧ x.magnitude = rounded n := by
  by_cases hn : n = 0
  · subst hn
    cases h
    exact ⟨rfl, by simp [zero, magnitude, rounded_zero]⟩
  · obtain ⟨hs, ⟨he, hm⟩ | ⟨he, hm, hfull⟩⟩ := nearest?_cases hn h
    · rw [← mantissaAt_mul_spacing, magnitude, he, hm]
      exact ⟨hs, rfl⟩
    · refine ⟨hs, ?_⟩
      rw [← mantissaAt_mul_spacing, magnitude, he, hm, hfull,
        show (n.log2 : ℤ) - 51 = n.log2 - 52 + 1 by omega, zpow_add_one₀ two_ne_zero]
      push_cast
      ring

theorem exists_binade {n : ℕ} (h : 2 ^ 53 ≤ n) :
    ∃ e, 1 ≤ e ∧ 2 ^ 52 * 2 ^ e ≤ n ∧ n < 2 ^ 53 * 2 ^ e := by
  have hn : n ≠ 0 := by omega
  have hlog : 53 ≤ n.log2 := (Nat.le_log2 hn).mpr h
  obtain ⟨e, he⟩ := Nat.exists_eq_add_of_le hlog
  have hlo := Nat.log2_self_le hn
  have hhi := Nat.lt_log2_self (n := n)
  rw [he] at hlo hhi
  refine ⟨e + 1, by omega, ?_, ?_⟩
  · rwa [← pow_add, show 52 + (e + 1) = 53 + e by omega]
  · rwa [← pow_add, ← add_assoc]

section Binade
variable {n e : ℕ} (hlo : 2 ^ 52 * 2 ^ e ≤ n) (hhi : n < 2 ^ 53 * 2 ^ e)
include hlo hhi

theorem rounded_eq : rounded n = roundDiv n (2 ^ e) * 2 ^ e := by
  have hn : n ≠ 0 := by
    have := Nat.two_pow_pos e
    omega
  have hlog : n.log2 = 52 + e := by
    rw [Nat.log2_eq_iff hn, pow_add, add_right_comm, pow_add]
    exact ⟨hlo, hhi⟩
  rw [rounded, spacing, hlog, Nat.add_sub_cancel_left]

theorem rounded_bounds : 2 ^ 52 * 2 ^ e ≤ rounded n ∧ rounded n ≤ 2 ^ 53 * 2 ^ e := by
  rw [rounded_eq hlo hhi]
  have he := Nat.two_pow_pos e
  exact ⟨Nat.mul_le_mul_right _ (le_roundDiv he hlo),
    Nat.mul_le_mul_right _ (roundDiv_le he (by omega))⟩

end Binade

end Binary64

namespace Integer64
variable {n : Integer64}

/-- The integer that the nearest double denotes. -/
def rounded (n : Integer64) : ℤ := n.val.sign * Binary64.rounded n.val.natAbs

theorem rounded_of_nonneg (h : 0 ≤ n.val) : n.rounded = Binary64.rounded n.val.natAbs := by
  rcases h.lt_or_eq with hpos | hz
  · rw [rounded, Int.sign_eq_one_of_pos hpos, one_mul]
  · rw [rounded, ← hz, Int.natAbs_zero, Binary64.rounded_zero, Nat.cast_zero, mul_zero]

theorem rounded_of_nonpos (h : n.val ≤ 0) : n.rounded = -Binary64.rounded n.val.natAbs := by
  rcases h.lt_or_eq with hneg | hz
  · rw [rounded, Int.sign_eq_neg_one_of_neg hneg, neg_one_mul]
  · rw [rounded, hz, Int.natAbs_zero, Binary64.rounded_zero, Nat.cast_zero, mul_zero, neg_zero]

theorem natAbs_rounded (n : Integer64) : n.rounded.natAbs = Binary64.rounded n.val.natAbs := by
  rcases le_total 0 n.val with h | h
  · rw [rounded_of_nonneg h, Int.natAbs_natCast]
  · rw [rounded_of_nonpos h, Int.natAbs_neg, Int.natAbs_natCast]

theorem nearest?_eq_toBinary64 (n : Integer64) :
    Binary64.nearest? (decide (n.val < 0)) n.val.natAbs 1 = some n.toBinary64 :=
  (Option.some_get _).symm

theorem toRat_toBinary64 (n : Integer64) : n.toBinary64.toRat = n.rounded := by
  obtain ⟨hs, hm⟩ := Binary64.magnitude_of_nearest? n.nearest?_eq_toBinary64
  rw [Binary64.toRat, hs, hm]
  by_cases h : n.val < 0
  · simp [h, rounded_of_nonpos h.le]
  · simp [h, rounded_of_nonneg (not_lt.mp h)]

end Integer64

end PropStyling
