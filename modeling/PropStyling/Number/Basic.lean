import PropStyling.Number.Notation

/-! # Numbers

A number is an integer of at most 64 bits, signed or unsigned, or a finite
double-precision number. The two kinds stay apart: an integer is never the same
number as a float. Comparison by magnitude goes through the nearest double.
-/
namespace PropStyling

/-- An integer that fits in 64 bits, unsigned when it is not negative. -/
structure Integer64 where
  val : Int
  le_val : -0x8000000000000000 ≤ val
  val_lt : val < 0x10000000000000000
deriving DecidableEq

namespace Integer64

def ofInt? (val : Int) : Option Integer64 :=
  if h : -0x8000000000000000 ≤ val ∧ val < 0x10000000000000000 then
    some ⟨val, h.1, h.2⟩
  else none

def chars (n : Integer64) : List Char :=
  let digits := Nat.toDigits 10 n.val.natAbs
  if n.val < 0 then '-' :: digits else digits

def toBinary64 (n : Integer64) : Binary64 :=
  (Binary64.nearest? (decide (n.val < 0)) n.val.natAbs 1).get <|
    Binary64.nearest?_isSome _ <| by
      have := n.le_val
      have := n.val_lt
      omega

end Integer64

inductive Number where
  | integer (n : Integer64)
  | float (x : Binary64)
deriving DecidableEq

namespace Number

def chars : Number → List Char
  | .integer n => n.chars
  | .float x => x.chars

def text (n : Number) : String :=
  String.ofList n.chars

def toBinary64 : Number → Binary64
  | .integer n => n.toBinary64
  | .float x => x

/-- Equality that keeps integers and floats apart and identifies the two zeros. -/
def same : Number → Number → Bool
  | .integer m, .integer n => m == n
  | .float x, .float y => x.same y
  | _, _ => false

/-- The number an integer denotes: itself when it has at most 64 bits, otherwise the
nearest float, unless it is too large. -/
def ofInt? (val : Int) : Option Number :=
  match Integer64.ofInt? val with
  | some n => some (.integer n)
  | none => ((Decimal.mk val.natAbs 0).nearest? (decide (val < 0))).map .float

end Number

end PropStyling
