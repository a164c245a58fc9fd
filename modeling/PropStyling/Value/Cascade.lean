import PropStyling.Value.Basic

/-! # Cascading values

A later style value goes on top of an earlier one. Objects merge name by name and
the later value of a name wins; texts are lists of class names and are joined by a
space unless one of them is empty; lists are concatenated. Values of different
kinds do not mix: the later one replaces the earlier one.
-/
namespace PropStyling

def joinClasses (earlier later : String) : String :=
  if earlier.isEmpty then later
  else if later.isEmpty then earlier
  else earlier ++ " " ++ later

namespace Value

def cascade : Value → Value → Value
  | .object earlier, .object later => .object (Fields.merge earlier later)
  | .string earlier, .string later => .string (joinClasses earlier later)
  | .array earlier, .array later => .array (earlier ++ later)
  | _, later => later

/-- The cascade of a run of values onto the first of them, which needs at least one. -/
def cascadeAll? : List Value → Option Value
  | [] => none
  | first :: later => some (later.foldl cascade first)

end Value

end PropStyling
