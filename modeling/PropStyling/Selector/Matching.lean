import PropStyling.Selector.Basic

/-! # Conditions on props

A condition holds of props when the prop is there and is truthy, or loosely equals
the expected value. A selector holds when all of its conditions do. A prop that is
missing meets no condition.
-/
namespace PropStyling

abbrev Props := Fields Value

def Expected.accepts (e : Expected) (v : Value) : Bool :=
  match e with
  | .truthy => v.isTruthy
  | e => v.looselyEqual e.toValue

def Condition.holds (c : Condition) (props : Props) : Bool :=
  match List.lookup c.prop props with
  | some v => c.expected.accepts v
  | none => false

def Selector.holds (s : Selector) (props : Props) : Bool :=
  s.conditions.all fun c => c.holds props

end PropStyling
