import PropStyling.Value.Token

/-! # Cutting a JSON text into tokens

The lexer reads one character at a time. It is between tokens, inside a word, or
inside quotes, where a character after a backslash never closes the quotes. Words
and quoted texts are read once they are complete. A quoted text holds no control
characters, and its surrogate escapes come in pairs.
-/
namespace PropStyling

namespace Token

def hexDigit? (c : Char) : Option Nat :=
  if '0' ≤ c ∧ c ≤ '9' then some (c.toNat - 48)
  else if 'a' ≤ c ∧ c ≤ 'f' then some (c.toNat - 87)
  else if 'A' ≤ c ∧ c ≤ 'F' then some (c.toNat - 55)
  else none

def hexUnit? (a b c d : Char) : Option Nat := do
  let a ← hexDigit? a
  let b ← hexDigit? b
  let c ← hexDigit? c
  let d ← hexDigit? d
  some (((a * 16 + b) * 16 + c) * 16 + d)

def isHighSurrogate (unit : Nat) : Bool := 0xD800 ≤ unit && unit < 0xDC00
def isLowSurrogate (unit : Nat) : Bool := 0xDC00 ≤ unit && unit < 0xE000

/-- The character that a backslash and the given letter stand for. -/
def ofEscape? : Char → Option Char
  | '"' => some '"'
  | '\\' => some '\\'
  | '/' => some '/'
  | 'b' => some '\x08'
  | 'f' => some '\x0c'
  | 'n' => some '\n'
  | 'r' => some '\r'
  | 't' => some '\t'
  | _ => none

/-- The text that the characters between two quotes stand for. -/
def unescape? : List Char → Option (List Char)
  | [] => some []
  | '\\' :: 'u' :: a :: b :: c :: d :: rest =>
    match hexUnit? a b c d with
    | none => none
    | some unit =>
      if isHighSurrogate unit then
        match rest with
        | '\\' :: 'u' :: a :: b :: c :: d :: rest =>
          match hexUnit? a b c d with
          | none => none
          | some low =>
            if isLowSurrogate low then
              (unescape? rest).map
                (Char.ofNat (0x10000 + (unit - 0xD800) * 0x400 + (low - 0xDC00)) :: ·)
            else none
        | _ => none
      else if isLowSurrogate unit then none
      else (unescape? rest).map (Char.ofNat unit :: ·)
  | '\\' :: c :: rest =>
    match ofEscape? c with
    | none => none
    | some c => (unescape? rest).map (c :: ·)
  | c :: rest => if c < ' ' ∨ c = '\\' then none else (unescape? rest).map (c :: ·)

end Token

inductive LexerMode where
  | between
  | word (read : List Char)
  | quoted (read : List Char)
  | escaped (read : List Char)

/-- What a lexer has read, latest first. -/
structure Lexer where
  mode : LexerMode
  tokens : List Token

namespace Lexer

def start : Lexer := ⟨.between, []⟩

def push (lexer : Lexer) (token : Token) : Lexer :=
  ⟨.between, token :: lexer.tokens⟩

def endWord? (lexer : Lexer) : Option Lexer :=
  match lexer.mode with
  | .word read => (Token.ofWord? read.reverse).map lexer.push
  | _ => some lexer

/-- Whether a character ends the word before it. -/
def isBoundary (c : Char) : Bool :=
  Token.isSpace c || c == '"' || (Token.ofPunctuation? c).isSome

def startToken (lexer : Lexer) (c : Char) : Lexer :=
  if Token.isSpace c then lexer
  else if c = '"' then ⟨.quoted [], lexer.tokens⟩
  else match Token.ofPunctuation? c with
    | some token => lexer.push token
    | none => ⟨.word [c], lexer.tokens⟩

def step? (lexer : Lexer) (c : Char) : Option Lexer :=
  match lexer.mode with
  | .between => some (lexer.startToken c)
  | .word read =>
    if isBoundary c then lexer.endWord?.map (·.startToken c)
    else some ⟨.word (c :: read), lexer.tokens⟩
  | .quoted read =>
    if c = '"' then
      (Token.unescape? read.reverse).map fun s => lexer.push (.string (String.ofList s))
    else if c = '\\' then some ⟨.escaped (c :: read), lexer.tokens⟩
    else some ⟨.quoted (c :: read), lexer.tokens⟩
  | .escaped read => some ⟨.quoted (c :: read), lexer.tokens⟩

def finish? (lexer : Lexer) : Option (List Token) :=
  match lexer.endWord? with
  | some ⟨.between, tokens⟩ => some tokens.reverse
  | _ => none

end Lexer

def Token.ofText? (text : String) : Option (List Token) :=
  (text.toList.foldlM Lexer.step? Lexer.start).bind Lexer.finish?

end PropStyling
