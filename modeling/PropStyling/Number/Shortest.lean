import PropStyling.Number.Decimal

/-! # Shortest decimals

The shortest decimal of a number has the fewest digits among those that read back
as the number, that is, whose nearest number it is. It is looked for among the
neighbours of the exact decimal, with one digit, then two, and so on up to
seventeen, which always suffice. Of two neighbours that read back the nearer one is
taken, and of a tie the even one.
-/
namespace PropStyling.Binary64

/-- The decimal with the magnitude of a number. -/
def exact (x : Binary64) : Decimal :=
  ⟨(x.mantissa <<< x.exponent.toNat) * Nat.pow 5 (-x.exponent).toNat, min x.exponent 0⟩

def readsBack (x : Binary64) (d : Decimal) : Bool :=
  d.nearest? x.negative == some x

def shortest (x : Binary64) : Decimal :=
  let width := (Nat.toDigits 10 x.exact.digits).length
  let hit := (List.range 17).findSome? fun n =>
    (x.exact.neighbours (width - (n + 1))).find? x.readsBack
  hit.getD x.exact

end PropStyling.Binary64
