import PropStyling.Fields

/-! # Sub-components

A component may declare its named parts, in order and each with a kind: a simple
part applies its style directly, and a composite part is a styled component that
takes a configuration of its own. Declaring a name again changes its kind.
-/
namespace PropStyling

inductive SubComponentKind where
  | simple
  | composite
deriving DecidableEq

abbrev SubComponents := Fields SubComponentKind

def SubComponents.contains (subs : SubComponents) (name : String) : Bool :=
  (List.lookup name subs).isSome

end PropStyling
