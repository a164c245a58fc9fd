import PropStyling.Grouping
import PropStyling.Value.Cascade

/-! # Resolved styles

Against given props, each target takes the cascade of the values of its rules that
hold, in order. A target without such a rule has no style at all. As one value, a
resolution is an object with a field for each target under its name.
-/
namespace PropStyling

/-- The style of each target that has one, in order. -/
structure Resolution where
  styles : List (Target × Value)

def Group.resolve? (props : Props) (g : Group) : Option (Target × Value) :=
  (Value.cascadeAll? ((g.rules.filter fun r => r.selector.holds props).map Rule.value)).map
    fun style => (g.target, style)

namespace Resolution

def ofGroups (groups : List Group) (props : Props) : Resolution :=
  ⟨groups.filterMap (Group.resolve? props)⟩

def get? (r : Resolution) (target : Target) : Option Value :=
  List.lookup target r.styles

def root? (r : Resolution) : Option Value :=
  r.get? .root

def contains (r : Resolution) (target : Target) : Bool :=
  (r.get? target).isSome

def toValue (r : Resolution) : Value :=
  .object (Fields.ofList (r.styles.map fun style => (style.1.name, style.2)))

end Resolution

end PropStyling
