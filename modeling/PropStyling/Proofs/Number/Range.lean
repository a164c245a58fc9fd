import PropStyling.Number.Basic

/-! # The range of numbers

A natural number has a nearest double-precision number when it is less than halfway
from the greatest finite one to the next power of two. At the halfway point the even
mantissa is out of range, so the bound itself is excluded. An integer literal stands
for a number exactly below that bound.
-/
namespace PropStyling

theorem succ_mul_le_mul {k q : Nat} (h : k < q) (den : Nat) : k * den + den ≤ q * den := by
  rw [← Nat.succ_mul]
  exact Nat.mul_le_mul_right den (Nat.succ_le_of_lt h)

/-- A quotient rounds to at most an odd integer when it is less than half above it. -/
theorem roundDiv_le_iff {num den k : Nat} (h : 0 < den) (hk : k % 2 = 1) :
    roundDiv num den ≤ k ↔ 2 * num < 2 * (k * den) + den := by
  have hd := Nat.div_add_mod num den
  have hm := Nat.mod_lt num h
  rw [Nat.mul_comm] at hd
  unfold roundDiv
  dsimp only
  rcases Nat.lt_trichotomy (num / den) k with hq | hq | hq
  · have hle := succ_mul_le_mul hq den
    refine iff_of_true ?_ (by omega)
    split
    · omega
    · split <;> omega
  · rw [← hq]
    have hodd : num / den % 2 = 1 := hq ▸ hk
    split
    · omega
    · split <;> omega
  · have hle := succ_mul_le_mul hq den
    refine iff_of_false ?_ (by omega)
    split
    · omega
    · split <;> omega

namespace Binary64

/-- A power of two, kept folded: its value may have hundreds of digits. -/
def twoPow (e : Nat) : Nat := Nat.pow 2 e

/-- Halfway from the greatest finite number to the next power of two. -/
def bound : Nat := twoPow 1024 - twoPow 970

theorem pow_pos (e : Nat) : 0 < twoPow e := Nat.two_pow_pos e

theorem pow_eq_mul {a c m : Nat} (b : Nat) (h : a = b + c) (hm : twoPow b = m) :
    twoPow a = m * twoPow c := by
  rw [h, ← hm]
  exact Nat.pow_add 2 b c

theorem pow_le {a b : Nat} (h : a ≤ b) : twoPow a ≤ twoPow b :=
  Nat.pow_le_pow_right Nat.two_pos h

theorem lt_bound_iff (n : Nat) :
    n < bound ↔ 2 * n < 2 * (0x1FFFFFFFFFFFFF * twoPow 971) + twoPow 971 := by
  have hlast : twoPow 1024 = 0x40000000000000 * twoPow 970 :=
    pow_eq_mul 54 (by decide) (by decide)
  have hunit : twoPow 971 = 2 * twoPow 970 := pow_eq_mul 1 (by decide) (by decide)
  rw [bound, hlast, hunit]
  clear hlast hunit
  generalize twoPow 970 = half
  omega

theorem pow_1023 : twoPow 1023 = 0x10000000000000 * twoPow 971 :=
  pow_eq_mul 52 (by decide) (by decide)

theorem lt_bound_of_log2 {n : Nat} (h : n.log2 ≤ 1022) : n < bound := by
  have hlt : n < twoPow (n.log2 + 1) := Nat.lt_log2_self
  have hle : twoPow (n.log2 + 1) ≤ twoPow 1023 := pow_le (Nat.succ_le_succ h)
  rw [pow_1023] at hle
  rw [lt_bound_iff]
  generalize twoPow 971 = unit at *
  omega

theorem ofParts?_isSome_iff {negative : Bool} {mantissa : Nat} {exponent : Int} :
    (ofParts? negative mantissa exponent).isSome = true ↔
      mantissa < 0x20000000000000 ∧ -1074 ≤ exponent ∧ exponent ≤ 971 ∧
        (0x10000000000000 ≤ mantissa ∨ exponent = -1074) := by
  rw [ofParts?]
  split
  · next h => exact iff_of_true rfl h
  · next h => exact iff_of_false Bool.false_ne_true h

theorem mantissaAt_natCast (n e : Nat) : mantissaAt n 1 e = roundDiv n (twoPow e) := by
  rw [mantissaAt, Int.toNat_natCast, Int.toNat_of_nonpos (by omega), Nat.shiftLeft_zero,
    Nat.shiftLeft_eq, Nat.one_mul]
  rfl

/-- A large integer is rounded at one of three exponents. -/
theorem nearest?_isSome_iff_exists (negative : Bool) {n : Nat} (h : 1023 ≤ n.log2) :
    (nearest? negative n 1).isSome = true ↔ ∃ e : Nat,
      (e = n.log2 - 53 ∨ e = n.log2 - 53 + 1 ∨ e = n.log2 - 53 + 2) ∧ e ≤ 971 ∧
      roundDiv n (twoPow e) < 0x20000000000000 ∧
      0x10000000000000 ≤ roundDiv n (twoPow e) := by
  have hn : n ≠ 0 := by
    rintro rfl
    exact absurd h (by decide)
  have he : leastExponent n 1 = ((n.log2 - 53 : Nat) : Int) := by
    rw [leastExponent, show Nat.log2 1 = 0 by decide]
    omega
  have hpart : ∀ e : Nat, (ofParts? negative (mantissaAt n 1 e) e).isSome = true ↔ e ≤ 971 ∧
      roundDiv n (twoPow e) < 0x20000000000000 ∧
      0x10000000000000 ≤ roundDiv n (twoPow e) := by
    intro e
    rw [ofParts?_isSome_iff, mantissaAt_natCast]
    omega
  rw [nearest?, if_neg hn, he]
  simp only [List.findSome?_isSome_iff, List.mem_cons, List.not_mem_nil, or_false]
  constructor
  · rintro ⟨_, rfl | rfl | rfl, h⟩
    · exact ⟨_, .inl rfl, (hpart _).mp h⟩
    · exact ⟨_, .inr (.inl rfl), (hpart _).mp h⟩
    · exact ⟨_, .inr (.inr rfl), (hpart _).mp h⟩
  · rintro ⟨e, hmem, h⟩
    refine ⟨e, ?_, (hpart e).mpr h⟩
    omega

/-- An integer has a nearest number exactly below the bound. -/
theorem nearest?_isSome_iff (negative : Bool) (n : Nat) :
    (nearest? negative n 1).isSome = true ↔ n < bound := by
  rcases Nat.lt_or_ge 1022 n.log2 with ha | ha
  · have hn : n ≠ 0 := by
      rintro rfl
      exact absurd ha (by decide)
    rw [nearest?_isSome_iff_exists negative ha]
    constructor
    · rintro ⟨e, -, he, hlt, -⟩
      have hr : roundDiv n (twoPow e) ≤ 0x1FFFFFFFFFFFFF := Nat.le_of_lt_succ hlt
      rw [roundDiv_le_iff (pow_pos e) (by decide)] at hr
      have hle : twoPow e ≤ twoPow 971 := pow_le he
      rw [lt_bound_iff]
      generalize twoPow 971 = unit at *
      omega
    · intro hlt
      have hlog : n.log2 = 1023 := by
        refine Nat.le_antisymm (Nat.le_of_not_lt fun h => ?_) ha
        have hle : twoPow 1024 ≤ n := Nat.le_trans (pow_le h) (Nat.log2_self_le hn)
        exact Nat.not_lt_of_le (Nat.le_trans (Nat.sub_le _ _) hle) hlt
      have hge : twoPow 1023 ≤ n := hlog ▸ Nat.log2_self_le hn
      rw [lt_bound_iff] at hlt
      refine ⟨971, .inr (.inl (by rw [hlog])), Nat.le_refl _, ?_, ?_⟩
      · have hr : roundDiv n (twoPow 971) ≤ 0x1FFFFFFFFFFFFF := by
          rw [roundDiv_le_iff (pow_pos 971) (by decide)]
          exact hlt
        exact Nat.lt_succ_of_le hr
      · apply Nat.le_of_not_lt
        intro hr
        have hsmall : roundDiv n (twoPow 971) ≤ 0xFFFFFFFFFFFFF := Nat.le_of_lt_succ hr
        rw [roundDiv_le_iff (pow_pos 971) (by decide)] at hsmall
        rw [pow_1023] at hge
        clear hr hlt
        generalize twoPow 971 = unit at *
        omega
  · exact iff_of_true (nearest?_isSome_of_log2 negative ha) (lt_bound_of_log2 ha)

end Binary64

theorem Integer64.ofInt?_natCast (n : Nat) :
    (ofInt? (n : Int)).isSome = true ↔ n < 0x10000000000000000 := by
  rw [ofInt?]
  split
  · exact iff_of_true rfl (by omega)
  · exact iff_of_false Bool.false_ne_true (by omega)

theorem Decimal.nearest?_natCast (negative : Bool) {n : Nat} (h : n ≠ 0) :
    nearest? negative ⟨n, 0⟩ = Binary64.nearest? negative n 1 := by
  have hlow : ¬ (0 : Int) + n.log2 < -400 := by omega
  rw [nearest?, if_neg h, if_neg (show ¬ (400 : Int) < 0 by decide), if_neg hlow]
  exact congrArg (Binary64.nearest? negative · 1) (Nat.mul_one n)

/-- An integer literal stands for a number exactly below the bound. -/
theorem Number.ofInt?_isSome_iff (n : Nat) :
    (ofInt? (n : Int)).isSome = true ↔ n < Binary64.bound := by
  rw [ofInt?]
  cases hi : Integer64.ofInt? n with
  | some i =>
    have hn : n < 0x10000000000000000 := (Integer64.ofInt?_natCast n).mp (hi ▸ rfl)
    exact iff_of_true rfl ((Binary64.nearest?_isSome_iff false n).mp
      (Binary64.nearest?_isSome false hn))
  | none =>
    have hn : n ≠ 0 := by
      rintro rfl
      exact absurd hi (by decide)
    rw [Option.isSome_map, Int.natAbs_natCast, Decimal.nearest?_natCast _ hn]
    exact Binary64.nearest?_isSome_iff _ n

end PropStyling
