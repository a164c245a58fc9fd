import PropStyling.Key
import PropStyling.Selector.Matching
import PropStyling.Styles
import PropStyling.SubComponents

/-! # Rules grouped by target

Every selector of a style key makes a rule for the value under that key; pieces of
a key that are not selectors make none. A bare style property is short for an
object with that one property on the root. Rules are filed under their targets,
targets in the order of their first rule and rules in the order they come.

When the sub-components are known, the names that are not among them are noted,
each once. They are filed all the same.
-/
namespace PropStyling

structure Rule where
  key : String
  selector : Selector
  value : Value

namespace Rule

def target (r : Rule) : Target :=
  r.selector.target

def ofPiece? (key : String) (value : Value) (piece : String) : Option Rule :=
  match Selector.parse piece with
  | .error _ => none
  | .ok selector =>
    some ⟨key, selector, if Selector.isProperty piece then .object [(piece, value)] else value⟩

def ofEntry (entry : String × Value) : List Rule :=
  (Key.pieces entry.1).filterMap (ofPiece? entry.1 entry.2)

def ofDeclarations (declarations : List Declaration) : List Rule :=
  declarations.flatMap fun d => d.entries.flatMap ofEntry

end Rule

/-- The rules for one target, lowest priority first. -/
structure Group where
  target : Target
  rules : List Rule

/-- Adds rules to the group of a target, or a group for it at the end. -/
def Group.file (target : Target) (rules : List Rule) : List Group → List Group
  | [] => [⟨target, rules⟩]
  | group :: rest =>
    if group.target = target then ⟨target, group.rules ++ rules⟩ :: rest
    else group :: file target rules rest

structure Grouping where
  groups : List Group
  undeclared : List String

namespace Grouping

def empty : Grouping :=
  ⟨[], []⟩

/-- Notes a name unless it is noted already. -/
def note (names : List String) (name : String) : List String :=
  if name ∈ names then names else names ++ [name]

def noteTarget (known : Option SubComponents) (names : List String) : Target → List String
  | .root => names
  | .named name =>
    match known with
    | none => names
    | some subs => if subs.contains name then names else note names name

def file (known : Option SubComponents) (g : Grouping) (r : Rule) : Grouping :=
  ⟨Group.file r.target [r] g.groups, noteTarget known g.undeclared r.target⟩

def ofDeclarations (known : Option SubComponents) (declarations : List Declaration) : Grouping :=
  (Rule.ofDeclarations declarations).foldl (file known) empty

/-- Files the rules of a later grouping after those of an earlier one. -/
def append (earlier later : Grouping) : Grouping :=
  ⟨later.groups.foldl (fun groups g => Group.file g.target g.rules groups) earlier.groups,
   later.undeclared.foldl note earlier.undeclared⟩

def targets (g : Grouping) : List Target :=
  g.groups.map Group.target

def rules? (g : Grouping) (target : Target) : Option (List Rule) :=
  (g.groups.find? fun group => group.target = target).map Group.rules

end Grouping

end PropStyling
