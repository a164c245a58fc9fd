import PropStyling.Text.Classes

/-! # Recognising selectors

A selector is a bare style property, or brackets with an optional `::name` after
them, or `::name` alone. The recogniser moves from stage to stage, one character
at a time. Its only choice is at a quote directly after a backslash inside a
quoted literal, which may belong to the literal or close it. Words and names are
recognised up to case, and blanks may surround names and literals inside brackets.
-/
namespace PropStyling

/-- Where a reader stands in a selector. -/
inductive Stage where
  | start
  | property
  | opened
  | name
  | named
  | equals
  | digits
  | word (left : List Char)
  | quote
  | quoted (backslash : Bool)
  | valued
  | closed
  | colon
  | colons
  | target
deriving DecidableEq

namespace Stage

def afterLiteral (c : Char) : List Stage :=
  if Text.isBlank c then [valued] else if c = ']' then [closed] else []

/-- The stages that one more character leads to. -/
def next : Stage → Char → List Stage
  | start, c =>
    if c = '[' then [opened]
    else if c = ':' then [colon]
    else if Text.isPropertyChar c then [property]
    else []
  | property, c => if Text.isPropertyChar c then [property] else []
  | opened, c => if Text.isBlank c then [opened] else if Text.isNameChar c then [name] else []
  | name, c =>
    if Text.isNameChar c then [name]
    else if Text.isBlank c then [named]
    else if c = '=' then [equals]
    else if c = ']' then [closed]
    else []
  | named, c =>
    if Text.isBlank c then [named]
    else if c = '=' then [equals]
    else if c = ']' then [closed]
    else []
  | equals, c =>
    if Text.isBlank c then [equals]
    else if c.isDigit then [digits]
    else if c = '"' then [quote]
    else if Text.fold c = 't' then [word ['r', 'u', 'e']]
    else if Text.fold c = 'f' then [word ['a', 'l', 's', 'e']]
    else []
  | digits, c => if c.isDigit then [digits] else afterLiteral c
  | word [], c => afterLiteral c
  | word (letter :: left), c => if Text.fold c = letter then [word left] else []
  | quote, c => if c = '"' then [] else [quoted (c == '\\')]
  | quoted backslash, c =>
    if c = '"' then if backslash then [quoted false, valued] else [valued]
    else [quoted (c == '\\')]
  | valued, c => afterLiteral c
  | closed, c => if c = '[' then [opened] else if c = ':' then [colon] else []
  | colon, c => if c = ':' then [colons] else []
  | colons, c => if Text.isTargetChar c then [target] else []
  | target, c => if Text.isTargetChar c then [target] else []

def isFinal : Stage → Bool
  | property => true
  | closed => true
  | target => true
  | _ => false

/-- Whether a text can be read from a stage to the end of a selector. -/
def accepts : Stage → List Char → Bool
  | stage, [] => stage.isFinal
  | stage, c :: rest => (stage.next c).any fun after => accepts after rest

end Stage

namespace Selector

/-- Whether a text without its outer blanks is a selector. -/
def isValid (text : String) : Bool :=
  Stage.start.accepts (Text.trim text.toList)

/-- Whether a text without its outer blanks is a bare style property. -/
def isProperty (text : String) : Bool :=
  let name := Text.trim text.toList
  !name.isEmpty && name.all Text.isPropertyChar

end Selector

end PropStyling
