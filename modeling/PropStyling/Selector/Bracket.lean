import PropStyling.Selector.Basic
import PropStyling.Text.Classes

/-! # Brackets

A bracket holds a prop name and, after an equals sign, a literal: digits, one of
the words `true` and `false` up to case, or a quoted text. A bracket is read from
its two ends, so a quoted literal is bounded by the first and the last quote. Not
every literal stands for a value: the words must be spelled with ASCII letters,
and digits must not exceed the range of numbers.
-/
namespace PropStyling

/-- A literal as it is written; quotes around a content are left out. -/
inductive Literal where
  | digits (text : List Char)
  | word (text : List Char)
  | quoted (content : List Char)
deriving DecidableEq

/-- A bracket as it is written, without its blanks. -/
structure Bracket where
  prop : List Char
  literal : Option Literal
deriving DecidableEq

def trueWord : List Char := ['t', 'r', 'u', 'e']
def falseWord : List Char := ['f', 'a', 'l', 's', 'e']

namespace Literal

/-- The content before a closing quote at the end of a text. -/
def ofQuoted? (text : List Char) : Option Literal :=
  let content := text.dropLast
  if text.getLast? = some '"' ∧ content ≠ [] ∧ Text.quotesEscaped content then
    some (.quoted content)
  else none

def ofPlain? (text : List Char) : Option Literal :=
  if text ≠ [] ∧ text.all Char.isDigit then some (.digits text)
  else if text.map Text.fold = trueWord ∨ text.map Text.fold = falseWord then some (.word text)
  else none

def ofChars? : List Char → Option Literal
  | '"' :: rest => ofQuoted? rest
  | text => ofPlain? text

def chars : Literal → List Char
  | digits text => text
  | word text => text
  | quoted content => '"' :: content ++ ['"']

/-- The expectation that a literal stands for. -/
def expected? : Literal → Option Expected
  | digits text => (Number.ofInt? (Nat.ofDigitChars 10 text 0)).map .number
  | word text =>
    if text.map Char.toLower = trueWord then some (.bool true)
    else if text.map Char.toLower = falseWord then some (.bool false)
    else none
  | quoted content => some (.string (String.ofList (Text.unescapeQuotes content)))

end Literal

namespace Bracket

/-- Reads what stands between brackets, without its outer blanks. -/
def ofInner? (inner : List Char) : Option Bracket :=
  let prop := inner.takeWhile Text.isNameChar
  if prop = [] then none
  else match (inner.dropWhile Text.isNameChar).dropWhile Text.isBlank with
    | [] => some ⟨prop, none⟩
    | '=' :: value =>
      (Literal.ofChars? (value.dropWhile Text.isBlank)).map fun literal => ⟨prop, some literal⟩
    | _ => none

def ofChars? : List Char → Option Bracket
  | '[' :: rest => if rest.getLast? = some ']' then ofInner? (Text.trim rest.dropLast) else none
  | _ => none

end Bracket

end PropStyling
