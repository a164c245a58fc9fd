import PropStyling.Proofs.Number.Magnitude

/-! # The double nearest to an integer

No double is nearer to an integer than the one that rounding finds, and of two that are
equally near rounding finds the one with the even mantissa. Doubles at least as large as
the power of two below the integer are multiples of one spacing, and rounding a quotient
finds the nearest multiple; a smaller double is further away than that power of two.
-/
namespace PropStyling

/-- A quotient halfway between two integers is rounded to the even one. -/
theorem roundDiv_even_of_tie {num den : ℕ} (h : 0 < den)
    (ht : 2 * num = 2 * (roundDiv num den * den) + den ∨
      2 * (roundDiv num den * den) = 2 * num + den) : roundDiv num den % 2 = 0 := by
  have hd := Nat.div_add_mod num den
  have hm := Nat.mod_lt num h
  rw [Nat.mul_comm] at hd
  unfold roundDiv at ht ⊢
  dsimp only at ht ⊢
  split at ht
  · omega
  · split at ht
    · rw [Nat.add_mul] at ht
      omega
    · rw [if_neg ‹_›, if_neg ‹_›]
      omega

/-- No multiple is nearer to a numerator than the rounded one. Of two nearest multiples the rounded
one is even and the other one stands next to it. -/
theorem roundDiv_nearest (num k : ℕ) {den : ℕ} (h : 0 < den) :
    ((roundDiv num den * den : ℕ) - num : ℤ).natAbs ≤ ((k * den : ℕ) - num : ℤ).natAbs ∧
      (((k * den : ℕ) - num : ℤ).natAbs = ((roundDiv num den * den : ℕ) - num : ℤ).natAbs →
        k = roundDiv num den ∨ roundDiv num den % 2 = 0 ∧
          (k = roundDiv num den + 1 ∨ roundDiv num den = k + 1)) := by
  have hb := roundDiv_bounds num h
  have heven := @roundDiv_even_of_tie num den h
  generalize roundDiv num den = r at *
  rcases Nat.lt_trichotomy k r with hk | rfl | hk
  · have hm := succ_mul_le_mul hk den
    refine ⟨by omega, fun ht => .inr ⟨heven (by omega), .inr ?_⟩⟩
    by_contra hne
    have hm := succ_mul_le_mul (show k + 1 < r by omega) den
    rw [Nat.succ_mul] at hm
    omega
  · exact ⟨le_rfl, fun _ => .inl rfl⟩
  · have hm := succ_mul_le_mul hk den
    refine ⟨by omega, fun ht => .inr ⟨heven (by omega), .inl ?_⟩⟩
    by_contra hne
    have hm := succ_mul_le_mul (show r + 1 < k by omega) den
    rw [Nat.succ_mul] at hm
    omega

namespace Binary64
variable {x y : Binary64}

/-- No double is nearer to the number, and the mantissa is even if another one is as near. -/
structure IsNearest (x : Binary64) (q : ℚ) : Prop where
  le : ∀ y : Binary64, |x.toRat - q| ≤ |y.toRat - q|
  even : ∀ y : Binary64, |y.toRat - q| = |x.toRat - q| → y.toRat ≠ x.toRat → x.mantissa % 2 = 0

theorem eq_of_toRat (h : x.toRat = y.toRat) (hy : 0 < y.toRat) : x = y := by
  have hneg : ∀ {z : Binary64}, 0 < z.toRat → z.negative = false := by
    intro z hz
    by_contra hn
    rw [toRat, if_pos (Bool.eq_true_of_not_eq_false hn)] at hz
    exact absurd z.magnitude_nonneg (not_le.mpr (neg_pos.mp hz))
  have hmag : x.magnitude = y.magnitude := by rw [← abs_toRat, ← abs_toRat, h]
  obtain ⟨hm, he⟩ := magnitude_inj.mp hmag
  have hs : x.negative = y.negative := (hneg (h ▸ hy)).trans (hneg hy).symm
  cases x
  cases y
  cases hm
  cases he
  cases hs
  rfl

/-- A magnitude is less than a power of two or a multiple of the spacing above it, with a factor
of the parity of the mantissa. -/
theorem magnitude_cases (y : Binary64) (e : ℕ) : y.magnitude < (2 ^ 52 * 2 ^ e : ℕ) ∨
    ∃ k : ℕ, y.magnitude = (k * 2 ^ e : ℕ) ∧ (k ≤ 2 ^ 53 → k % 2 = y.mantissa % 2) := by
  have hlt := y.mantissa_lt
  rcases lt_or_ge y.exponent e with he | he
  · left
    calc y.magnitude < 2 ^ 53 * 2 ^ y.exponent :=
          mul_lt_mul_of_pos_right (by exact_mod_cast hlt) (by positivity)
      _ ≤ 2 ^ 53 * 2 ^ ((e : ℤ) - 1) :=
          mul_le_mul_of_nonneg_left (zpow_le_zpow_right₀ (by norm_num) (by omega)) (by positivity)
      _ = (2 ^ 52 * 2 ^ e : ℕ) := by
          rw [zpow_sub_one₀ two_ne_zero, zpow_natCast]
          push_cast
          ring
  · right
    obtain ⟨d, hd⟩ := Int.le.dest he
    have hn : 2 ^ 52 ≤ y.mantissa := y.normal.resolve_right (by omega)
    refine ⟨y.mantissa * 2 ^ d, ?_, fun hk => ?_⟩
    · rw [magnitude, ← hd, zpow_add₀ two_ne_zero, zpow_natCast, zpow_natCast]
      push_cast
      ring
    · cases d with
      | zero => rw [pow_zero, mul_one]
      | succ d =>
        have hpow := Nat.one_le_two_pow (n := d)
        have hm : y.mantissa ≤ y.mantissa * 2 ^ d := Nat.le_mul_of_pos_right _ hpow
        rw [pow_succ, ← mul_assoc] at hk ⊢
        omega

theorem toRat_cases (y : Binary64) (e : ℕ) : y.toRat < (2 ^ 52 * 2 ^ e : ℕ) ∨
    ∃ k : ℕ, y.toRat = (k * 2 ^ e : ℕ) ∧ (k ≤ 2 ^ 53 → k % 2 = y.mantissa % 2) := by
  rw [toRat]
  split
  · have hpos : (0 : ℚ) < (2 ^ 52 * 2 ^ e : ℕ) := by positivity
    exact .inl ((neg_nonpos.mpr y.magnitude_nonneg).trans_lt hpos)
  · exact y.magnitude_cases e

theorem abs_natCast_sub (a b : ℕ) : |(a : ℚ) - b| = ((a - b : ℤ).natAbs : ℚ) := by
  rw [Nat.cast_natAbs]
  push_cast
  rfl

section Binade
variable {n e : ℕ} (hlo : 2 ^ 52 * 2 ^ e ≤ n)
include hlo

/-- A double is further away than the rounded multiple, or it is a multiple itself. -/
theorem lt_abs_or_exists (y : Binary64) :
    |((roundDiv n (2 ^ e) * 2 ^ e : ℕ) : ℚ) - n| < |y.toRat - n| ∨
      ∃ k : ℕ, y.toRat = (k * 2 ^ e : ℕ) ∧ (k ≤ 2 ^ 53 → k % 2 = y.mantissa % 2) := by
  rcases y.toRat_cases e with hy | hk
  · left
    have hle := (roundDiv_nearest n (2 ^ 52) (Nat.two_pow_pos e)).1
    have hn : ((2 ^ 52 * 2 ^ e : ℕ) : ℚ) ≤ n := by exact_mod_cast hlo
    calc |((roundDiv n (2 ^ e) * 2 ^ e : ℕ) : ℚ) - n| ≤ |((2 ^ 52 * 2 ^ e : ℕ) : ℚ) - n| := by
          rw [abs_natCast_sub, abs_natCast_sub]
          exact_mod_cast hle
      _ = n - (2 ^ 52 * 2 ^ e : ℕ) := by rw [abs_of_nonpos (sub_nonpos.mpr hn), neg_sub]
      _ < n - y.toRat := sub_lt_sub_left hy _
      _ = |y.toRat - n| := by rw [abs_of_neg (sub_neg.mpr (hy.trans_le hn)), neg_sub]
  · exact .inr hk

variable (hhi : n < 2 ^ 53 * 2 ^ e)
include hhi

theorem parity_of_toRat (hx : x.toRat = rounded n) : roundDiv n (2 ^ e) % 2 = x.mantissa % 2 := by
  have hr := rounded_eq hlo hhi
  have hb := rounded_bounds hlo hhi
  have hpos := Nat.two_pow_pos e
  rcases x.toRat_cases e with hlt | ⟨k, hk, heven⟩
  · rw [hx] at hlt
    exact absurd hb.1 (not_le.mpr (by exact_mod_cast hlt))
  · rw [hx, hr] at hk
    have hkr : roundDiv n (2 ^ e) = k := Nat.eq_of_mul_eq_mul_right hpos (by exact_mod_cast hk)
    rw [hkr]
    exact heven (hkr ▸ roundDiv_le hpos (by omega))

/-- The double that an integer is rounded to is nearest to it. -/
theorem isNearest_of_toRat (hx : x.toRat = rounded n) : x.IsNearest n := by
  have hr := rounded_eq hlo hhi
  have heven := parity_of_toRat hlo hhi hx
  have hpos := Nat.two_pow_pos e
  rw [hr] at hx
  constructor
  · intro y
    rw [hx]
    rcases lt_abs_or_exists hlo y with hlt | ⟨k, hk, -⟩
    · exact hlt.le
    · rw [hk, abs_natCast_sub, abs_natCast_sub]
      exact_mod_cast (roundDiv_nearest n k hpos).1
  · intro y ht hne
    rw [hx] at ht hne
    rcases lt_abs_or_exists hlo y with hlt | ⟨k, hk, -⟩
    · exact absurd ht hlt.ne'
    · rw [hk, abs_natCast_sub, abs_natCast_sub] at ht
      rcases (roundDiv_nearest n k hpos).2 (by exact_mod_cast ht) with rfl | ⟨hr2, -⟩
      · exact absurd hk hne
      · rw [← heven]
        exact hr2

/-- Only the double that an integer is rounded to is nearest to it. -/
theorem IsNearest.toRat_eq (hx : x.IsNearest n) (hy : y.toRat = rounded n) :
    x.toRat = rounded n := by
  have hnear := isNearest_of_toRat hlo hhi hy
  have ht : |x.toRat - n| = |y.toRat - n| := le_antisymm (hx.le y) (hnear.le x)
  by_contra hne
  rw [← hy] at hne
  have hxe := hx.even y ht.symm (Ne.symm hne)
  have hye := hnear.even x ht hne
  rw [← parity_of_toRat hlo hhi hy] at hye
  rw [hy, rounded_eq hlo hhi] at ht hne
  have hpos := Nat.two_pow_pos e
  rcases lt_abs_or_exists hlo x with hlt | ⟨k, hk, hparity⟩
  · exact absurd ht hlt.ne'
  · rw [hk, abs_natCast_sub, abs_natCast_sub] at ht
    have hdist := Nat.cast_injective (R := ℚ) ht
    rcases (roundDiv_nearest n k hpos).2 hdist with rfl | ⟨-, hnext⟩
    · exact hne hk
    · -- Beyond the greatest multiple of the binade only the rounded one is near enough.
      have hk53 : k ≤ 2 ^ 53 := by
        have hle : roundDiv n (2 ^ e) ≤ 2 ^ 53 := roundDiv_le hpos (by omega)
        by_contra hgt
        have hlast : roundDiv n (2 ^ e) = 2 ^ 53 := by omega
        obtain rfl : k = 2 ^ 53 + 1 := by omega
        rw [hlast, Nat.succ_mul] at hdist
        omega
      have hk2 := hparity hk53
      omega

end Binade

/-- The nearest double of an integer beyond 53 bits is the one that no other one is nearer than. -/
theorem nearest?_eq_some_iff {n : ℕ} (hn : 2 ^ 53 ≤ n) :
    nearest? false n 1 = some x ↔ n < bound ∧ x.IsNearest n := by
  obtain ⟨e, -, hlo, hhi⟩ := exists_binade hn
  have htoRat : ∀ {y : Binary64}, nearest? false n 1 = some y → y.toRat = rounded n := by
    intro y hy
    obtain ⟨hs, hm⟩ := magnitude_of_nearest? hy
    rw [toRat, hs, hm]
    rfl
  rw [← nearest?_isSome_iff false n]
  constructor
  · intro h
    exact ⟨h ▸ rfl, isNearest_of_toRat hlo hhi (htoRat h)⟩
  · rintro ⟨hs, hx⟩
    obtain ⟨y, hy⟩ := Option.isSome_iff_exists.mp hs
    have hpos : 0 < y.toRat := by
      rw [htoRat hy]
      have hb := (rounded_bounds hlo hhi).1
      have hpow := Nat.two_pow_pos e
      exact_mod_cast (show 0 < rounded n by omega)
    rw [hy, eq_of_toRat ((hx.toRat_eq hlo hhi (htoRat hy)).trans (htoRat hy).symm) hpos]

end Binary64

/-- Digits stand for the integer if it has at most 64 bits, and beyond for its nearest double. -/
theorem Number.ofInt?_natCast_eq_some_iff {n : ℕ} {m : Number} : ofInt? n = some m ↔
    (∃ i : Integer64, (n : ℤ) = i.val ∧ m = .integer i) ∨
      ∃ x : Binary64, 2 ^ 64 ≤ n ∧ n < Binary64.bound ∧ x.IsNearest n ∧ m = .float x := by
  rw [ofInt?, Integer64.ofInt?]
  by_cases hn : n < 2 ^ 64
  · rw [dif_pos ⟨by omega, by omega⟩]
    constructor
    · rintro ⟨⟩
      exact .inl ⟨_, rfl, rfl⟩
    · rintro (⟨⟨i, hl, hu⟩, rfl, rfl⟩ | ⟨x, hlo, -⟩)
      · rfl
      · exact absurd hlo (not_le.mpr hn)
  · have hne : n ≠ 0 := by omega
    rw [dif_neg (by omega), Int.natAbs_natCast, decide_eq_false (by omega),
      Decimal.nearest?_natCast false hne]
    simp only [Option.map_eq_some_iff, Binary64.nearest?_eq_some_iff (show 2 ^ 53 ≤ n by omega)]
    constructor
    · rintro ⟨x, ⟨hb, hx⟩, rfl⟩
      exact .inr ⟨x, not_lt.mp hn, hb, hx, rfl⟩
    · rintro (⟨i, hi, rfl⟩ | ⟨x, -, hb, hx, rfl⟩)
      · have hlt := i.val_lt
        omega
      · exact ⟨x, ⟨hb, hx⟩, rfl⟩

end PropStyling
