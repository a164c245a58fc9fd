import PropStyling.Number.Decimal

/-! # Decimals in double arithmetic

The numbers of a JSON text are read in double arithmetic. The digits, as far as they
fit in 64 bits, are rounded to a double, and so is the power of ten; the two are then
multiplied, or divided when the exponent is negative. A power beyond the range of
doubles is divided out in two steps. Each step rounds to the nearest number, so the
result can differ in its last place from the number nearest to the decimal.
-/
namespace PropStyling

namespace Binary64

def mul? (x y : Binary64) : Option Binary64 :=
  let exponent := x.exponent + y.exponent
  nearest? (x.negative != y.negative) ((x.mantissa * y.mantissa) <<< exponent.toNat)
    (1 <<< (-exponent).toNat)

/-- The quotient by a number other than zero. -/
def div? (x y : Binary64) : Option Binary64 :=
  let exponent := x.exponent - y.exponent
  nearest? (x.negative != y.negative) (x.mantissa <<< exponent.toNat)
    (y.mantissa <<< (-exponent).toNat)

/-- The greatest power of ten within the range of doubles. -/
def greatestPower : Nat := 308

def powerOfTen? (n : Nat) : Option Binary64 :=
  nearest? false (Nat.pow 10 n) 1

end Binary64

namespace Decimal
open Binary64 (powerOfTen? greatestPower)

/-- Puts digits after a significand as long as it stays below `2 ^ 64`. The second part counts
the digits left out. -/
def extend (significand : Nat) : List Char → Nat × Nat
  | [] => (significand, 0)
  | c :: rest =>
    let longer := Nat.ofDigitChars 10 [c] significand
    if longer < 0x10000000000000000 then extend longer rest else (significand, rest.length + 1)

/-- The decimal of a whole part, a fraction and an exponent, with digits left out where they do
not fit in 64 bits. A digit left out of the whole part still counts as a place. -/
def ofDigits (whole fraction : List Char) (exponent : Int) : Decimal :=
  let first := extend 0 whole
  let second := extend first.1 fraction
  ⟨second.1, exponent + first.2 - (fraction.length - second.2 : Nat)⟩

/-- The number that double arithmetic gives for a decimal, unless the decimal is too large. -/
def scaled? (negative : Bool) (d : Decimal) : Option Binary64 := do
  if d.digits = 0 ∨ d.exponent < -(2 * greatestPower : Nat) then
    return .zero negative
  let x ← Binary64.nearest? negative d.digits 1
  if greatestPower < d.exponent then
    none
  else if 0 ≤ d.exponent then
    x.mul? (← powerOfTen? d.exponent.toNat)
  else if -greatestPower ≤ d.exponent then
    x.div? (← powerOfTen? (-d.exponent).toNat)
  else
    let y ← x.div? (← powerOfTen? greatestPower)
    y.div? (← powerOfTen? (-d.exponent - greatestPower).toNat)

end Decimal

end PropStyling
