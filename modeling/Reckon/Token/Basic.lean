import Reckon.Json
import Reckon.Operator
import Reckon.Source.Location
import Reckon.Text.Quoted
/-!
# Tokens

What a source is cut into: literals with their values, parentheses, commas, operators, and names that are resolved
already. Each token knows its span and its location. A token has a text, close to what was written, a description
for messages, a dump that shows all of it but the location, and a JSON value.
-/

namespace Reckon

/-- The span as a JSON object of its ends. -/
def Span.json (s : Span) : Json := .object [("start", .nat s.start), ("end", .nat s.stop)]

/-- The location as a JSON object. -/
def Location.json (l : Location) : Json :=
  .object [("line", .nat l.line), ("column", .nat l.column), ("offset", .nat l.offset)]

/-- A named value as a JSON object. -/
def Json.ofConstant (name : String) (value : Float) : Json :=
  .object [("name", .string name), ("value", .float value)]

/-- A named value in full. -/
def constantDump (name : String) (value : Float) : String :=
  "Constant \x7b name: " ++ Text.quoted name ++ ", value: " ++ Number.pointed value ++ " \x7d"

namespace Token

/-- What a token is. A comparison with `==` compares values as doubles: zeros are equal whatever their sign, and NaN
equals nothing. -/
inductive Kind where
  | integer (value : Float)
  | decimal (value : Float)
  | leftParen
  | rightParen
  | comma
  | operator (op : Operator)
  | constant (name : String) (value : Float)
  | function (name : String)
  | eof
  deriving BEq, Repr

namespace Kind

/-- Whether the token ends the input. -/
def isEof : Kind → Bool
  | eof => true
  | _ => false

/-- The text of the token. -/
def text : Kind → String
  | integer v => Number.plain v
  | decimal v => Number.plain v
  | leftParen => "("
  | rightParen => ")"
  | comma => ","
  | operator op => op.symbol
  | constant name _ => name
  | function name => name
  | eof => "<eof>"

/-- What kind of token it is, in words. -/
def description : Kind → String
  | integer _ => "integer"
  | decimal _ => "decimal"
  | leftParen => "`(`"
  | rightParen => "`)`"
  | comma => "`,`"
  | operator op => "`" ++ op.symbol ++ "`"
  | constant _ _ => "constant"
  | function _ => "function"
  | eof => "end of input"

/-- The kind in full. -/
def dump : Kind → String
  | integer v => "Integer(" ++ Number.pointed v ++ ")"
  | decimal v => "Decimal(" ++ Number.pointed v ++ ")"
  | leftParen => "LParen"
  | rightParen => "RParen"
  | comma => "Comma"
  | operator op => "Operator(" ++ op.name ++ ")"
  | constant name v => constantDump name v
  | function name => "Function(" ++ Text.quoted name ++ ")"
  | eof => "Eof"

/-- The kind as a JSON value. -/
def json : Kind → Json
  | integer v => .object [("Integer", .float v)]
  | decimal v => .object [("Decimal", .float v)]
  | leftParen => .string "LParen"
  | rightParen => .string "RParen"
  | comma => .string "Comma"
  | operator op => .object [("Operator", .string op.name)]
  | constant name v => .object [("Constant", .ofConstant name v)]
  | function name => .object [("Function", .string name)]
  | eof => .string "Eof"

end Kind

end Token

/-- A token with its place in the source. -/
structure Token where
  kind : Token.Kind
  span : Span
  location : Location
  deriving BEq, Repr

namespace Token

/-- The token of a kind at the start of the source, with no text. -/
def ofKind (kind : Kind) : Token := ⟨kind, .point 0, .first⟩

/-- The token in full, its location left out. -/
def dump (t : Token) : String := t.kind.dump ++ " @ " ++ t.span.text

/-- The token as a JSON object. -/
def json (t : Token) : Json :=
  .object [("kind", t.kind.json), ("span", t.span.json), ("location", t.location.json)]

end Token

end Reckon
