import PropStyling.Grouping
import PropStyling.Report
import PropStyling.Schema

/-! # Validation of configurations

A configuration is checked against a schema in three passes: the grammar of its
keys, the targets of its rules, and the values in its conditions. The third pass
leaves out the keys that cannot be parsed. It shows the validator of a prop nothing
but the value that the condition implies. All problems of all passes are reported.
-/
namespace PropStyling.Schema

def grammarDiagnostics (styles : Styles) : List Diagnostic :=
  let keys := styles.keys.filter fun key => !Key.isValid key
  if keys.isEmpty then [] else [.malformed keys]

def targetDiagnostics (s : Schema) (component : String) (styles : Styles) : List Diagnostic :=
  match s.subComponents with
  | none => []
  | some subs =>
    let names := (Grouping.ofDeclarations (some subs) styles.declarations).undeclared
    if names.isEmpty then [] else [.unknownTargets names component subs.names]

/-- The check of a prop against the value that a condition implies. -/
def impliedCheck (component : String) (c : Condition) : PropCheck :=
  ⟨[(c.prop, c.expected.toValue)], c.prop, component, "prop"⟩

def rejection? (validators : Validators) (component : String) (c : Condition) : Option Rejection :=
  (List.lookup c.prop validators).bind fun validator =>
    validator.reject? (impliedCheck component c)

def keyDiagnostics (validators : Validators) (component key : String) : List Diagnostic :=
  match Key.parse key with
  | .error _ => []
  | .ok selectors =>
    (selectors.flatMap Selector.conditions).filterMap fun c =>
      (rejection? validators component c).map fun r => .rejected key r.message

def propDiagnostics (s : Schema) (component : String) (styles : Styles) : List Diagnostic :=
  match s.validators with
  | none => []
  | some validators => styles.keys.flatMap (keyDiagnostics validators component)

def diagnostics (s : Schema) (component : String) (styles : Styles) : List Diagnostic :=
  grammarDiagnostics styles ++ s.targetDiagnostics component styles ++
    s.propDiagnostics component styles

def validate (s : Schema) (component : String) (styles : Styles) : Option Report :=
  Report.ofList? (s.diagnostics component styles)

/-- Validates the configuration held by a prop; a missing or falsy prop holds none. -/
def validateProp (s : Schema) (component : String) (props : Props) (prop : String) :
    Option Report :=
  match List.lookup prop props with
  | none => none
  | some v => if v.isTruthy then s.validate component (.ofValue v) else none

end PropStyling.Schema
