import PropStyling.Selector.Bracket
import PropStyling.Selector.Recognizer

/-! # Parsing selectors

A selector is cut into brackets from the left. A closing bracket inside a quoted
literal does not end a bracket, and where a literal ends may depend on everything
after it, so each `]` is tried in turn as the end of the current bracket until the
rest of the text can be cut too. The literals are read once the cut is made, the
last one first, and a literal without a value is a fault at its bracket.
-/
namespace PropStyling

inductive Fault where
  | ungrammatical
  | uncut
  | badNumber (literal : String)
deriving DecidableEq

/-- A text that cannot be used as a selector, and why. -/
structure InvalidSelector where
  selector : String
  fault : Fault
deriving DecidableEq

def Fault.message : Fault → String
  | ungrammatical => "does not match the selector grammar"
  | uncut => "could not be split into prop and sub-component selectors"
  | badNumber literal => "bad number literal '" ++ literal ++ "'"

def InvalidSelector.message (e : InvalidSelector) : String :=
  "Invalid selector '" ++ e.selector ++ "': " ++ e.fault.message

namespace Bracket

/-- The condition of a bracket; a fault names the text from the bracket on. -/
def condition (b : Bracket) (text : List Char) : Except InvalidSelector Condition :=
  let prop := String.ofList b.prop
  match b.literal with
  | none => .ok ⟨prop, .truthy⟩
  | some literal =>
    match literal.expected? with
    | some expected => .ok ⟨prop, expected⟩
    | none => .error ⟨String.ofList text, .badNumber (String.ofList literal.chars)⟩

end Bracket

namespace Selector

/-- Reads a `::name` suffix. -/
def ofSuffix? : List Char → Option Selector
  | ':' :: ':' :: name =>
    if name ≠ [] ∧ name.all Text.isTargetChar then some (.ofName (String.ofList name)) else none
  | _ => none

def withFirst (condition : Condition) (s : Selector) : Selector :=
  { s with conditions := condition :: s.conditions }

/-- Cuts a text into brackets and a suffix, where `seen` holds the characters of the current
bracket that have been passed, latest first. -/
def cut (seen : List Char) : List Char → Except InvalidSelector (Option Selector)
  | [] => .ok (if seen.isEmpty then some root else none)
  | c :: rest =>
    if seen.isEmpty && c != '[' then .ok (ofSuffix? (c :: rest))
    else if c = ']' then
      match Bracket.ofChars? (seen.reverse ++ [c]) with
      | none => cut (c :: seen) rest
      | some bracket =>
        match cut [] rest with
        | .error e => .error e
        | .ok none => cut (c :: seen) rest
        | .ok (some s) =>
          (bracket.condition (seen.reverse ++ c :: rest)).map fun first => some (s.withFirst first)
    else cut (c :: seen) rest

def parseChars (text : List Char) : Except InvalidSelector Selector :=
  if !Stage.start.accepts text then .error ⟨String.ofList text, .ungrammatical⟩
  else if text.all Text.isPropertyChar then .ok root
  else match cut [] text with
    | .error e => .error e
    | .ok none => .error ⟨String.ofList text, .uncut⟩
    | .ok (some s) => .ok s

/-- Parses a selector, outer blanks aside. A bare style property stands for the root. -/
def parse (text : String) : Except InvalidSelector Selector :=
  parseChars (Text.trim text.toList)

end Selector

end PropStyling
