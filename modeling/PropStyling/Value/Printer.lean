import PropStyling.Value.Token

/-! # Writing values

A value is written as JSON without spaces, the fields of an object in their order.
Every character of a text stands for itself except quotes, backslashes and the
controls below the space.
-/
namespace PropStyling.Value

mutual

def tokens : Value → List Token
  | .null => [.null]
  | .bool b => [.bool b]
  | .number n => [.number n]
  | .string s => [.string s]
  | .array items => .openArray :: (itemTokens items ++ [.closeArray])
  | .object fields => .openObject :: (fieldTokens fields ++ [.closeObject])

def itemTokens : List Value → List Token
  | [] => []
  | [item] => item.tokens
  | item :: rest => item.tokens ++ .comma :: itemTokens rest

def fieldTokens : List (String × Value) → List Token
  | [] => []
  | [(name, value)] => .string name :: .colon :: value.tokens
  | (name, value) :: rest => .string name :: .colon :: (value.tokens ++ .comma :: fieldTokens rest)

end

def text (v : Value) : String :=
  String.ofList (v.tokens.flatMap Token.chars)

end PropStyling.Value
