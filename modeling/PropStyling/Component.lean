import PropStyling.Resolution
import PropStyling.Validation

/-! # Styled components

A styled component has a schema, a name for reports, and default styles that have
passed validation and are grouped by target. Its styles are resolved against the
props of the moment, with or without a caller's overrides, whose rules come after
the defaults of each target.
-/
namespace PropStyling

structure Component where
  schema : Schema
  name : String
  defaults : Grouping

namespace Component

/-- The component with these default styles, or the report of their problems. -/
def ofStyles (schema : Schema) (styles : Styles) (name : String) : Except Report Component :=
  match schema.validate name styles with
  | some report => .error report
  | none => .ok ⟨schema, name, .ofDeclarations schema.subComponents styles.declarations⟩

def resolve (c : Component) (props : Props) : Resolution :=
  .ofGroups c.defaults.groups props

/-- Resolves the default styles followed by overrides, which need not fit the schema. -/
def resolveWith (c : Component) (props : Props) (overrides : Styles) : Resolution :=
  if overrides.isEmpty then c.resolve props
  else
    let later := Grouping.ofDeclarations none overrides.declarations
    .ofGroups (c.defaults.append later).groups props

/-- Validates the configuration that a prop holds as overrides. -/
def validate (c : Component) (props : Props) (prop : String) : Option Report :=
  c.schema.validateProp c.name props prop

end Component

end PropStyling
