import PropStyling.Selector.Parser

/-! # Style keys

A style key holds one or more selectors with commas between them. A comma separates
only where an even number of double quotes follows it in the key, so the commas in
quoted literals stay where they are. The pieces of a key are its segments without
their outer blanks. Even an empty key has one piece.
-/
namespace PropStyling.Key

/-- Cuts a text at its separating commas, where `quotes` counts the double quotes of the text
and `seen` holds the characters of the current segment that have been passed, latest first. -/
def split (quotes : Nat) (seen : List Char) : List Char → List (List Char)
  | [] => [seen.reverse]
  | c :: rest =>
    if c = '"' then split (quotes - 1) (c :: seen) rest
    else if c = ',' ∧ quotes % 2 = 0 then seen.reverse :: split quotes [] rest
    else split quotes (c :: seen) rest

def segments (key : List Char) : List (List Char) :=
  split (key.count '"') [] key

def pieces (key : String) : List String :=
  (segments key.toList).map fun segment => String.ofList (Text.trim segment)

def isValid (key : String) : Bool :=
  (pieces key).all Selector.isValid

/-- Parses every selector of a key, up to the first fault. -/
def parse (key : String) : Except InvalidSelector (List Selector) :=
  (pieces key).mapM Selector.parse

/-- Keys that show each form a selector may take. -/
def examples : List String :=
  ["::subComponent",
   "::subComponent, ::subComponent2",
   "[prop]",
   "[prop=false]",
   "[prop=42]",
   "[prop=\"string\"], [prop2=42]",
   "[prop]::subComponent",
   "[prop1][prop2=\"string\"]::subComponent"]

end PropStyling.Key
