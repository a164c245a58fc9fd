import PropStyling.SubComponents
import PropStyling.Text.Inspect
import PropStyling.Validator

/-! # Schemas

A schema says what a component declares about its styles: its sub-components and
the validators of its props. Either part may be left open. Without sub-components
every name is allowed, and without validators no value of a condition is checked.
-/
namespace PropStyling

abbrev Validators := Fields Validator

structure Schema where
  subComponents : Option SubComponents
  validators : Option Validators

namespace Validators

/-- The inspected form: the names that have a validator, in the order of their code points. -/
def inspect (validators : Validators) : String :=
  let names := validators.names.mergeSort fun a b => decide (a ≤ b)
  let quoted := names.map fun name => String.ofList (Text.inspect name.toList)
  "PropTypes \x7b props: [" ++ ", ".intercalate quoted ++ "] \x7d"

end Validators

namespace Schema

/-- The schema that checks nothing. -/
def empty : Schema :=
  ⟨none, none⟩

def declare (s : Schema) (name : String) (kind : SubComponentKind) : Schema :=
  { s with subComponents := some ((s.subComponents.getD []).insert name kind) }

def withSubComponents (s : Schema) (subs : SubComponents) : Schema :=
  { s with subComponents := some subs }

def register (s : Schema) (prop : String) (validator : Validator) : Schema :=
  { s with validators := some ((s.validators.getD []).insert prop validator) }

def withValidators (s : Schema) (validators : Validators) : Schema :=
  { s with validators := some validators }

end Schema

end PropStyling
