import PropStyling.Selector.Matching
import PropStyling.Value.Printer

/-! # Prop validators

A validator checks one prop of a component and rejects it for a cause. The built-in
ones ask for a type of value, or for one of a list of values up to loose equality;
they accept a prop that is missing or null. A validator may leave its check to
another one, and a custom one decides by a function of the check.
-/
namespace PropStyling

inductive ValueType where
  | bool
  | number
  | string
deriving DecidableEq

namespace ValueType

def name : ValueType → String
  | bool => "boolean"
  | number => "number"
  | string => "string"

def admits : ValueType → Value → Bool
  | bool, .bool _ => true
  | number, .number _ => true
  | string, .string _ => true
  | _, _ => false

end ValueType

/-- What a validator is asked: whether `props` hold a good value for `prop` of `component`,
where `location` says what kind of thing the prop is. -/
structure PropCheck where
  props : Props
  prop : String
  component : String
  location : String

namespace PropCheck

/-- The value to be checked, if there is one other than null. -/
def value? (c : PropCheck) : Option Value :=
  match List.lookup c.prop c.props with
  | none => none
  | some .null => none
  | some v => some v

end PropCheck

inductive Rejection where
  | wrongType (check : PropCheck) (actual : Value) (expected : ValueType)
  | notListed (check : PropCheck) (actual : Value) (allowed : List Value)
  | custom (message : String)

def Rejection.message : Rejection → String
  | wrongType c actual expected =>
    "Invalid " ++ c.location ++ " `" ++ c.prop ++ "` of type `" ++ actual.kindName ++
      "` supplied to `" ++ c.component ++ "`, expected `" ++ expected.name ++ "`."
  | notListed c actual allowed =>
    "Invalid " ++ c.location ++ " `" ++ c.prop ++ "` of value `" ++ actual.text ++
      "` supplied to `" ++ c.component ++ "`, expected one of " ++ (Value.array allowed).text ++ "."
  | custom message => message

inductive Validator where
  | hasType (expected : ValueType)
  | oneOf (allowed : List Value)
  | delegate (inner : Validator)
  | custom (message? : PropCheck → Option String)

namespace Validator

def reject? : Validator → PropCheck → Option Rejection
  | hasType expected, c =>
    match c.value? with
    | none => none
    | some v => if expected.admits v then none else some (.wrongType c v expected)
  | oneOf allowed, c =>
    match c.value? with
    | none => none
    | some v =>
      if allowed.any fun a => a.looselyEqual v then none else some (.notListed c v allowed)
  | delegate inner, c => inner.reject? c
  | custom message?, c => (message? c).map .custom

end Validator

end PropStyling
