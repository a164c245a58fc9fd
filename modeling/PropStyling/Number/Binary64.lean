import PropStyling.Number.Rounding

/-! # Finite double-precision numbers

A number `± mantissa · 2 ^ exponent` has at most 53 bits in its mantissa and an
exponent from -1074 to 971. The mantissa has all its 53 bits unless the exponent
is least, so every magnitude has one representation; only zero has two signs.
Rounding takes the least exponent at which the rounded mantissa still fits, and a
tie goes to the even mantissa. A quotient too large for every exponent has no
nearest number.
-/
namespace PropStyling

structure Binary64 where
  negative : Bool
  mantissa : Nat
  exponent : Int
  mantissa_lt : mantissa < 0x20000000000000
  le_exponent : -1074 ≤ exponent
  exponent_le : exponent ≤ 971
  normal : 0x10000000000000 ≤ mantissa ∨ exponent = -1074
deriving DecidableEq

namespace Binary64

def ofParts? (negative : Bool) (mantissa : Nat) (exponent : Int) : Option Binary64 :=
  if h : mantissa < 0x20000000000000 ∧ -1074 ≤ exponent ∧ exponent ≤ 971 ∧
      (0x10000000000000 ≤ mantissa ∨ exponent = -1074) then
    some ⟨negative, mantissa, exponent, h.1, h.2.1, h.2.2.1, h.2.2.2⟩
  else none

def zero (negative : Bool) : Binary64 :=
  ⟨negative, 0, -1074, by decide, by decide, by decide, .inr rfl⟩

def isZero (x : Binary64) : Bool :=
  x.mantissa == 0

/-- Equality of the numbers denoted: the two zeros are the same number. -/
def same (x y : Binary64) : Bool :=
  x.mantissa == y.mantissa && x.exponent == y.exponent && (x.negative == y.negative || x.isZero)

/-- The integer nearest to `num / (den · 2 ^ exponent)`. -/
def mantissaAt (num den : Nat) (exponent : Int) : Nat :=
  roundDiv (num <<< (-exponent).toNat) (den <<< exponent.toNat)

/-- An exponent at most two below the one that leaves 53 bits of `num / den`. -/
def leastExponent (num den : Nat) : Int :=
  max ((num.log2 : Int) - den.log2 - 53) (-1074)

/-- The number nearest to `± num / den`, unless the quotient is too large. -/
def nearest? (negative : Bool) (num den : Nat) : Option Binary64 :=
  if num = 0 then some (zero negative)
  else
    let exponent := leastExponent num den
    [exponent, exponent + 1, exponent + 2].findSome? fun e =>
      ofParts? negative (mantissaAt num den e) e

theorem ofParts?_isSome (negative : Bool) {mantissa : Nat} {exponent : Int}
    (hm : mantissa < 0x20000000000000) (hn : 0x10000000000000 ≤ mantissa)
    (hl : -1074 ≤ exponent) (hu : exponent ≤ 971) :
    (ofParts? negative mantissa exponent).isSome := by
  rw [ofParts?, dif_pos ⟨hm, hl, hu, .inl hn⟩]
  rfl

/-- Each integer below the greatest power of two in range has a nearest number. -/
theorem nearest?_isSome_of_log2 (negative : Bool) {n : Nat} (ha : n.log2 ≤ 1022) :
    (nearest? negative n 1).isSome := by
  unfold nearest?
  split
  · rfl
  · next hn =>
    have hlo := Nat.log2_self_le hn
    have hhi := Nat.lt_log2_self (n := n)
    have he : leastExponent n 1 = (n.log2 : Int) - 53 := by
      simp only [leastExponent, show Nat.log2 1 = 0 by decide]
      omega
    simp only [he, List.findSome?_isSome_iff]
    generalize n.log2 = a at *
    by_cases hs : a ≤ 52
    · refine ⟨(a : Int) - 53 + 1, by simp, ofParts?_isSome _ ?_ ?_ (by omega) (by omega)⟩ <;>
        rw [mantissaAt, show ((a : Int) - 53 + 1).toNat = 0 by omega,
          show (-((a : Int) - 53 + 1)).toNat = 52 - a by omega, Nat.shiftLeft_zero,
          Nat.shiftLeft_eq, roundDiv_one]
      · calc n * 2 ^ (52 - a) < 2 ^ (a + 1) * 2 ^ (52 - a) :=
            Nat.mul_lt_mul_of_pos_right hhi (Nat.two_pow_pos _)
          _ = 2 ^ 53 := by rw [← Nat.pow_add]; congr 1; omega
      · calc 2 ^ 52 = 2 ^ a * 2 ^ (52 - a) := by rw [← Nat.pow_add]; congr 1; omega
          _ ≤ n * 2 ^ (52 - a) := Nat.mul_le_mul_right _ hlo
    · have hd : 0 < 2 ^ (a - 52) := Nat.two_pow_pos _
      have hlt : n < 2 ^ 53 * 2 ^ (a - 52) := by
        rwa [← Nat.pow_add, show 53 + (a - 52) = a + 1 by omega]
      have hle : 2 ^ 52 * 2 ^ (a - 52) ≤ n := by
        rwa [← Nat.pow_add, show 52 + (a - 52) = a by omega]
      have hm : mantissaAt n 1 ((a : Int) - 53 + 1) = roundDiv n (2 ^ (a - 52)) := by
        rw [mantissaAt, show ((a : Int) - 53 + 1).toNat = a - 52 by omega,
          show (-((a : Int) - 53 + 1)).toNat = 0 by omega, Nat.shiftLeft_zero, Nat.shiftLeft_eq,
          Nat.one_mul]
      by_cases hf : roundDiv n (2 ^ (a - 52)) < 2 ^ 53
      · refine ⟨(a : Int) - 53 + 1, by simp, ofParts?_isSome _ ?_ ?_ (by omega) (by omega)⟩ <;>
          rw [hm]
        · exact hf
        · have hb := (roundDiv_bounds n hd).2
          apply Nat.le_of_lt_succ
          apply Nat.lt_of_mul_lt_mul_right (a := 2 ^ (a - 52))
          rw [Nat.succ_mul (roundDiv n _)]
          omega
      · have hq := roundDiv_double hd hlt (Nat.le_of_not_lt hf)
        have hn2 : mantissaAt n 1 ((a : Int) - 53 + 2) = roundDiv n (2 ^ (a - 52) * 2) := by
          rw [mantissaAt, show ((a : Int) - 53 + 2).toNat = a - 52 + 1 by omega,
            show (-((a : Int) - 53 + 2)).toNat = 0 by omega, Nat.shiftLeft_zero,
            Nat.shiftLeft_eq, Nat.one_mul, Nat.pow_succ]
        refine ⟨(a : Int) - 53 + 2, by simp, ofParts?_isSome _ ?_ ?_ (by omega) (by omega)⟩ <;>
          rw [hn2]
        · exact hq.2
        · exact hq.1

/-- Each integer of at most 64 bits has a nearest number. -/
theorem nearest?_isSome (negative : Bool) {n : Nat} (h : n < 0x10000000000000000) :
    (nearest? negative n 1).isSome := by
  refine nearest?_isSome_of_log2 negative ?_
  by_cases hn : n = 0
  · subst hn
    decide
  · have hl : n.log2 < 64 := (Nat.log2_lt hn).2 h
    omega

end Binary64

end PropStyling
