import PropStyling.Number.Basic
import PropStyling.Fields

/-! # Values

Props, style values and whole configurations are JSON values: null, a truth value,
a number, a text, a list of values, or an object of named values in order. `same`
is structural equality: objects are compared without regard to the order of their
fields, and an integer differs from a float. `looselyEqual` compares two numbers by
magnitude and everything else structurally.
-/
namespace PropStyling

inductive Value where
  | null
  | bool (b : Bool)
  | number (n : Number)
  | string (s : String)
  | array (items : List Value)
  | object (fields : List (String × Value))

namespace Value

mutual

def same : Value → Value → Bool
  | .null, .null => true
  | .bool a, .bool b => a == b
  | .number a, .number b => a.same b
  | .string a, .string b => a == b
  | .array a, .array b => sameItems a b
  | .object a, .object b => a.length == b.length && sameFields a b
  | _, _ => false

def sameItems : List Value → List Value → Bool
  | [], [] => true
  | a :: as, b :: bs => a.same b && sameItems as bs
  | _, _ => false

/-- Whether each field of the first list has a same value under its name in the second. -/
def sameFields : List (String × Value) → List (String × Value) → Bool
  | [], _ => true
  | (name, a) :: rest, bs =>
    (match List.lookup name bs with
      | some b => a.same b
      | none => false) && sameFields rest bs

end

instance : BEq Value := ⟨same⟩

/-- Null, false, zero and the empty text are falsy; lists and objects never are. -/
def isTruthy : Value → Bool
  | .null => false
  | .bool b => b
  | .number n => !n.toBinary64.isZero
  | .string s => !s.isEmpty
  | .array _ => true
  | .object _ => true

def looselyEqual : Value → Value → Bool
  | .number a, .number b => a.toBinary64.same b.toBinary64
  | a, b => a.same b

def kindName : Value → String
  | .null => "null"
  | .bool _ => "boolean"
  | .number _ => "number"
  | .string _ => "string"
  | .array _ => "array"
  | .object _ => "object"

end Value

end PropStyling
