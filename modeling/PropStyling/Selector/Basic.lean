import PropStyling.Text.Quoted
import PropStyling.Value.Basic

/-! # Selectors

A selector is a list of conditions on props, all of which must hold, and the
target that its style is for: the root element or one of its named parts. The
name `root` means the root itself. The written form of a selector shows its
conditions in brackets and then its target, but leaves out a root target unless
there is nothing else to show.
-/
namespace PropStyling

/-- What a condition asks of a prop: to be truthy, or to equal a value. -/
inductive Expected where
  | truthy
  | bool (b : Bool)
  | number (n : Number)
  | string (s : String)
deriving DecidableEq

structure Condition where
  prop : String
  expected : Expected
deriving DecidableEq

inductive Target where
  | root
  | named (name : String)
deriving DecidableEq

structure Selector where
  conditions : List Condition
  target : Target
deriving DecidableEq

namespace Expected

/-- The value of a prop that meets the expectation; any truthy prop is represented by `true`. -/
def toValue : Expected → Value
  | .truthy => .bool true
  | .bool b => .bool b
  | .number n => .number n
  | .string s => .string s

def chars : Expected → List Char
  | .truthy => []
  | .bool true => ['t', 'r', 'u', 'e']
  | .bool false => ['f', 'a', 'l', 's', 'e']
  | .number n => n.chars
  | .string s => '"' :: Text.escapeQuotes s.toList ++ ['"']

def text (e : Expected) : String :=
  String.ofList e.chars

end Expected

namespace Condition

def hasValue (c : Condition) : Bool :=
  c.expected != .truthy

def chars (c : Condition) : List Char :=
  '[' :: c.prop.toList ++ (if c.hasValue then '=' :: c.expected.chars else []) ++ [']']

def text (c : Condition) : String :=
  String.ofList c.chars

end Condition

namespace Target

def ofName (name : String) : Target :=
  if name = "root" then .root else .named name

def name : Target → String
  | .root => "root"
  | .named name => name

def isRoot : Target → Bool
  | .root => true
  | .named _ => false

def chars (t : Target) : List Char :=
  ':' :: ':' :: t.name.toList

def text (t : Target) : String :=
  String.ofList t.chars

end Target

namespace Selector

def root : Selector :=
  ⟨[], .root⟩

def ofName (name : String) : Selector :=
  ⟨[], .ofName name⟩

def isUnconditional (s : Selector) : Bool :=
  s.conditions.isEmpty

def chars (s : Selector) : List Char :=
  s.conditions.flatMap Condition.chars ++
    (if s.target.isRoot && !s.isUnconditional then [] else s.target.chars)

def text (s : Selector) : String :=
  String.ofList s.chars

end Selector

end PropStyling
