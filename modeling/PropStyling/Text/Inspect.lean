import PropStyling.Text.Hidden

/-! # Texts for inspection

The inspected form of a text stands between double quotes and shows every
character: quotes and backslashes after a backslash, the usual controls by letter,
and each other hidden character by its code point in hexadecimal.
-/
namespace PropStyling.Text

def inspectChar (c : Char) : List Char :=
  match c with
  | '\x00' => ['\\', '0']
  | '\t' => ['\\', 't']
  | '\r' => ['\\', 'r']
  | '\n' => ['\\', 'n']
  | '\\' => ['\\', '\\']
  | '"' => ['\\', '"']
  | c => if isHidden c then '\\' :: 'u' :: '{' :: (Nat.toDigits 16 c.toNat ++ ['}']) else [c]

def inspect (text : List Char) : List Char :=
  '"' :: text.flatMap inspectChar ++ ['"']

end PropStyling.Text
