import PropStyling.Number.Binary64

/-! # Decimals and the numbers nearest to them

A decimal is rounded to the nearest double-precision number. The bounds on the
exponent are generous: beyond them the decimal is larger than every finite number,
or rounds to zero, so the power of ten itself is never formed.
-/
namespace PropStyling

/-- The magnitude `digits · 10 ^ exponent`. -/
structure Decimal where
  digits : Nat
  exponent : Int
deriving DecidableEq

namespace Decimal

def nearest? (negative : Bool) (d : Decimal) : Option Binary64 :=
  if d.digits = 0 then some (.zero negative)
  else if 400 < d.exponent then none
  else if d.exponent + d.digits.log2 < -400 then some (.zero negative)
  else
    Binary64.nearest? negative (d.digits * Nat.pow 10 d.exponent.toNat)
      (Nat.pow 10 (-d.exponent).toNat)

/-- The two neighbours of a decimal after `cut` of its last digits are dropped, the nearer
one first and the even one first of a tie. -/
def neighbours (d : Decimal) (cut : Nat) : List Decimal :=
  let unit := Nat.pow 10 cut
  let below := d.digits / unit
  let nearer := roundDiv d.digits unit
  let farther := if nearer = below then below + 1 else below
  [⟨nearer, d.exponent + cut⟩, ⟨farther, d.exponent + cut⟩]

end Decimal

end PropStyling
