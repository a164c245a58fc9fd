/-! # Rounding a quotient

A quotient of naturals is rounded to the nearest integer, and a half goes to the
even neighbour. The product of the rounded quotient and the denominator is within
half a denominator of the numerator.
-/
namespace PropStyling

/-- The integer nearest to `num / den`, the even one of two. -/
def roundDiv (num den : Nat) : Nat :=
  let quotient := num / den
  let twice := 2 * (num % den)
  if twice < den then quotient
  else if den < twice then quotient + 1
  else quotient + quotient % 2

theorem roundDiv_bounds (num : Nat) {den : Nat} (h : 0 < den) :
    2 * (roundDiv num den * den) ≤ 2 * num + den ∧
      2 * num ≤ 2 * (roundDiv num den * den) + den := by
  have hd := Nat.div_add_mod num den
  have hm := Nat.mod_lt num h
  rw [Nat.mul_comm] at hd
  unfold roundDiv
  dsimp only
  split
  · omega
  · split
    · rw [Nat.add_mul]
      omega
    · rcases Nat.mod_two_eq_zero_or_one (num / den) with hq | hq <;> rw [hq, Nat.add_mul] <;> omega

theorem roundDiv_one (num : Nat) : roundDiv num 1 = num := by
  simp [roundDiv, Nat.mod_one]

/-- A mantissa that rounds up to 54 bits fits at the next exponent. -/
theorem roundDiv_double {num den : Nat} (h : 0 < den) (hlt : num < 0x20000000000000 * den)
    (hr : 0x20000000000000 ≤ roundDiv num den) :
    0x10000000000000 ≤ roundDiv num (den * 2) ∧
      roundDiv num (den * 2) < 0x20000000000000 := by
  have hb := (roundDiv_bounds num h).1
  have hc := roundDiv_bounds num (show 0 < den * 2 by omega)
  have hrd := Nat.mul_le_mul_right den hr
  generalize roundDiv num (den * 2) = m at hc ⊢
  rw [(Nat.mul_assoc m den 2).symm] at hc
  constructor
  · apply Nat.le_of_lt_succ
    apply Nat.lt_of_mul_lt_mul_right (a := den)
    rw [Nat.succ_mul m]
    omega
  · apply Nat.lt_of_mul_lt_mul_right (a := den)
    omega

end PropStyling
