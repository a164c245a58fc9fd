import PropStyling.Key

/-! # Reports of problems

A diagnostic is one kind of problem in a configuration: keys that are malformed,
targets that the component does not declare, or a condition on a prop that its
validator rejects. A report holds at least one diagnostic.
-/
namespace PropStyling

inductive Diagnostic where
  | malformed (keys : List String)
  | unknownTargets (targets : List String) (component : String) (declared : List String)
  | rejected (key : String) (message : String)
deriving DecidableEq

namespace Diagnostic

def malformedMessage (keys : List String) : String :=
  "Malformed selector" ++ (if keys.length = 1 then "" else "s") ++ ": " ++
    ", ".intercalate (keys.map fun key => "\"" ++ key ++ "\"") ++
    "\n\nHere are some examples of valid selectors:\n" ++
    "\n".intercalate (Key.examples.map fun key => "  " ++ key)

/-- Names as targets, one on each line. -/
def targetLines (names : List String) : String :=
  "\n".intercalate (names.map fun name => "::" ++ name)

def unknownTargetsMessage (targets : List String) (component : String)
    (declared : List String) : String :=
  (if targets.length = 1 then targetLines targets ++ " is not a valid sub-component of `"
    else "[" ++ targetLines targets ++ "] are not valid sub-components of `") ++
    component ++ "`.\n\nValid sub-components are:\n\n" ++ targetLines declared

def message : Diagnostic → String
  | malformed keys => malformedMessage keys
  | unknownTargets targets component declared => unknownTargetsMessage targets component declared
  | rejected key message => "\"" ++ key ++ "\" is not a valid selector. " ++ message

end Diagnostic

structure Report where
  diagnostics : List Diagnostic
  ne_nil : diagnostics ≠ []

namespace Report

def ofList? (diagnostics : List Diagnostic) : Option Report :=
  if h : diagnostics = [] then none else some ⟨diagnostics, h⟩

def message (r : Report) : String :=
  "\n\n".intercalate (r.diagnostics.map Diagnostic.message)

end Report

end PropStyling
