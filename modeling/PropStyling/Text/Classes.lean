import PropStyling.Text.Blank

/-! # Characters of selectors

Simple case folding restricted to the characters that fold to an ASCII letter:
the capital letters, the long s (U+017F) and the Kelvin sign (U+212A). Digits are
the ten ASCII digits. A sub-component name may hold any character that is not
blank and does not separate.
-/
namespace PropStyling.Text

/-- The lower-case ASCII letter that a character folds to, otherwise the character itself. -/
def fold (c : Char) : Char :=
  if c = '\u017F' then 's' else if c = '\u212A' then 'k' else c.toLower

def isLetter (c : Char) : Bool :=
  (fold c).isLower

/-- The characters of a bare style property: letters up to case, and digits. -/
def isPropertyChar (c : Char) : Bool :=
  isLetter c || c.isDigit

/-- The characters of a prop name: those of a style property, and the underscore. -/
def isNameChar (c : Char) : Bool :=
  isPropertyChar c || c == '_'

/-- The characters of a sub-component name. -/
def isTargetChar (c : Char) : Bool :=
  !isBlank c && c != ':' && c != '='

end PropStyling.Text
