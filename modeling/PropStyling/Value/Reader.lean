import PropStyling.Value.Lexer

/-! # Reading values

The reader takes one JSON token at a time and keeps the lists and objects that are
still open, innermost first. A name repeated in an object keeps its first place
and takes its last value. No more than `limit` lists and objects may be open at
once; `depthLimit` is the limit for configuration texts.
-/
namespace PropStyling

/-- A list or an object that is still open. An object waits for the value of `name`. -/
inductive Frame where
  | array (read : List Value)
  | object (fields : Fields Value) (name : String)

/-- What a reader waits for, inside the frames that are open. -/
inductive Reader where
  | value (frames : List Frame)
  | itemOrEnd (frames : List Frame)
  | fieldOrEnd (frames : List Frame)
  | field (fields : Fields Value) (frames : List Frame)
  | colon (fields : Fields Value) (name : String) (frames : List Frame)
  | next (read : Value) (frames : List Frame)

namespace Reader

def startValue? (limit : Nat) (frames : List Frame) : Token → Option Reader
  | .null => some (.next .null frames)
  | .bool b => some (.next (.bool b) frames)
  | .number n => some (.next (.number n) frames)
  | .string s => some (.next (.string s) frames)
  | .openArray => if frames.length < limit then some (.itemOrEnd frames) else none
  | .openObject => if frames.length < limit then some (.fieldOrEnd frames) else none
  | _ => none

def step? (limit : Nat) : Reader → Token → Option Reader
  | .value frames, token => startValue? limit frames token
  | .itemOrEnd frames, .closeArray => some (.next (.array []) frames)
  | .itemOrEnd frames, token => startValue? limit (.array [] :: frames) token
  | .fieldOrEnd frames, .closeObject => some (.next (.object []) frames)
  | .fieldOrEnd frames, .string name => some (.colon [] name frames)
  | .field fields frames, .string name => some (.colon fields name frames)
  | .colon fields name frames, .colon => some (.value (.object fields name :: frames))
  | .next v (.array read :: frames), .comma => some (.value (.array (v :: read) :: frames))
  | .next v (.array read :: frames), .closeArray =>
    some (.next (.array (v :: read).reverse) frames)
  | .next v (.object fields name :: frames), .comma => some (.field (fields.insert name v) frames)
  | .next v (.object fields name :: frames), .closeObject =>
    some (.next (.object (fields.insert name v)) frames)
  | _, _ => none

def finish? : Reader → Option Value
  | .next v [] => some v
  | _ => none

end Reader

namespace Value

def depthLimit : Nat := 127

def ofTokens? (limit : Nat) (tokens : List Token) : Option Value :=
  (tokens.foldlM (Reader.step? limit) (.value [])).bind Reader.finish?

def ofText? (limit : Nat) (text : String) : Option Value :=
  (Token.ofText? text).bind (ofTokens? limit)

end Value

end PropStyling
