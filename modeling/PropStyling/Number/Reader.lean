import PropStyling.Number.Basic
import PropStyling.Number.Scaling

/-! # Reading a number

A JSON number is written with an optional minus sign, a whole part without superfluous
zeros, and optionally a fraction and an exponent. Without fraction and exponent it
is an integer if it has at most 64 bits, except that minus zero is the float of that
sign. Any other number is a float, and one that is too large is not read at all.
-/
namespace PropStyling.Number

def splitDigits (text : List Char) : List Char × List Char :=
  (text.takeWhile Char.isDigit, text.dropWhile Char.isDigit)

def splitSign (text : List Char) : Bool × List Char :=
  match text with
  | '-' :: rest => (true, rest)
  | _ => (false, text)

def isWholePart : List Char → Bool
  | [] => false
  | ['0'] => true
  | first :: _ => first != '0'

/-- The digits after a point, none when there is no point, and the rest of the text. -/
def splitFraction? : List Char → Option (List Char × List Char)
  | '.' :: rest =>
    let parts := splitDigits rest
    if parts.1.isEmpty then none else some parts
  | text => some ([], text)

/-- An exponent after its letter. -/
def exponent? (text : List Char) : Option Int :=
  let signed := match text with
    | '+' :: rest => (false, rest)
    | _ => splitSign text
  let parts := splitDigits signed.2
  if parts.1.isEmpty || !parts.2.isEmpty then none
  else
    let magnitude : Int := Nat.ofDigitChars 10 parts.1 0
    some (if signed.1 then -magnitude else magnitude)

/-- The exponent part of a number, `none` inside when there is none. -/
def exponentPart? : List Char → Option (Option Int)
  | [] => some none
  | 'e' :: rest => (exponent? rest).map some
  | 'E' :: rest => (exponent? rest).map some
  | _ => none

/-- The integer of a sign and digits; minus zero is none. -/
def integer? (negative : Bool) (digits : List Char) : Option Integer64 :=
  let magnitude := Nat.ofDigitChars 10 digits 0
  if negative then if magnitude = 0 then none else Integer64.ofInt? (-magnitude)
  else Integer64.ofInt? magnitude

def ofText? (text : List Char) : Option Number := do
  let (negative, unsigned) := splitSign text
  let (whole, afterWhole) := splitDigits unsigned
  if !isWholePart whole then none
  let (fraction, afterFraction) ← splitFraction? afterWhole
  let exponent ← exponentPart? afterFraction
  let decimal := Decimal.ofDigits whole fraction (exponent.getD 0)
  let float? := (decimal.scaled? negative).map Number.float
  if fraction.isEmpty && exponent.isNone then
    match integer? negative whole with
    | some n => some (.integer n)
    | none => float?
  else float?

end PropStyling.Number
