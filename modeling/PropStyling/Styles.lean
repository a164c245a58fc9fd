import PropStyling.Value.Basic

/-! # Style configurations

A declaration is a list of style keys with their values; it keeps its order and
its repetitions. A configuration has no declaration, or one, or many in order of
priority, where later ones win. A value stands for a configuration when it is an
object or a list of objects; anything else in a list is skipped, and any other
value stands for no declaration.
-/
namespace PropStyling

structure Declaration where
  entries : List (String × Value)
deriving BEq

namespace Declaration

def empty : Declaration :=
  ⟨[]⟩

def push (d : Declaration) (key : String) (value : Value) : Declaration :=
  ⟨d.entries ++ [(key, value)]⟩

def keys (d : Declaration) : List String :=
  d.entries.map Prod.fst

def ofValue? : Value → Option Declaration
  | .object fields => some ⟨fields⟩
  | _ => none

end Declaration

inductive Styles where
  | absent
  | one (declaration : Declaration)
  | many (declarations : List Declaration)

namespace Styles

def declarations : Styles → List Declaration
  | absent => []
  | one d => [d]
  | many ds => ds

def ofValue : Value → Styles
  | .object fields => one ⟨fields⟩
  | .array items => many (items.filterMap Declaration.ofValue?)
  | _ => absent

/-- The declarations of one configuration and then those of another, which win. -/
def append (earlier later : Styles) : Styles :=
  many (earlier.declarations ++ later.declarations)

def isEmpty (s : Styles) : Bool :=
  s.declarations.isEmpty

def keys (s : Styles) : List String :=
  s.declarations.flatMap Declaration.keys

end Styles

end PropStyling
