/-! # Quotes inside a quoted text

A double quote inside a quoted text is written with a backslash before it, and a
backslash is written as itself. So a content is well formed when each of its
double quotes stands directly after a backslash, and reading drops exactly those
backslashes, from the left and without overlap.
-/
namespace PropStyling.Text

def escapeQuotes : List Char → List Char
  | [] => []
  | c :: rest => if c = '"' then '\\' :: '"' :: escapeQuotes rest else c :: escapeQuotes rest

def unescapeQuotes : List Char → List Char
  | [] => []
  | '\\' :: '"' :: rest => '"' :: unescapeQuotes rest
  | c :: rest => c :: unescapeQuotes rest

/-- Whether each double quote stands directly after a backslash, where `backslash` says
whether one stands before the text. -/
def quotesEscapedAfter (backslash : Bool) : List Char → Bool
  | [] => true
  | c :: rest => (c != '"' || backslash) && quotesEscapedAfter (c == '\\') rest

def quotesEscaped (content : List Char) : Bool :=
  quotesEscapedAfter false content

end PropStyling.Text
