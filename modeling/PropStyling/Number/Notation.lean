import PropStyling.Number.Shortest

/-! # Notation of numbers

A number is written with its shortest digits. When the first digit stands for a
power of ten from -5 to 15 the notation is plain and always has a fraction.
Otherwise one digit stands before the point, and a signed exponent follows.
-/
namespace PropStyling.Binary64

def leastPlain : Int := -5
def greatestPlain : Int := 15

/-- Plain notation of digits, the first of which counts `10 ^ first`. -/
def plain (digits : List Char) (first : Int) : List Char :=
  if first < 0 then '0' :: '.' :: (List.replicate (-first - 1).toNat '0' ++ digits)
  else
    let width := first.toNat + 1
    let whole := digits.take width ++ List.replicate (width - digits.length) '0'
    let fraction := digits.drop width
    whole ++ '.' :: (if fraction.isEmpty then ['0'] else fraction)

/-- Notation with an exponent. -/
def scientific (digits : List Char) (first : Int) : List Char :=
  let fraction := digits.drop 1
  digits.take 1 ++ (if fraction.isEmpty then [] else '.' :: fraction) ++
    'e' :: (if first < 0 then '-' else '+') :: Nat.toDigits 10 first.natAbs

def magnitudeChars (x : Binary64) : List Char :=
  if x.isZero then ['0', '.', '0']
  else
    let d := x.shortest
    let all := Nat.toDigits 10 d.digits
    let first := d.exponent + (all.length - 1 : Nat)
    let digits := (all.reverse.dropWhile (· == '0')).reverse
    if leastPlain ≤ first ∧ first ≤ greatestPlain then plain digits first
    else scientific digits first

def chars (x : Binary64) : List Char :=
  if x.negative then '-' :: x.magnitudeChars else x.magnitudeChars

end PropStyling.Binary64
