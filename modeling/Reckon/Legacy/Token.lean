import Reckon.Json
import Reckon.Number.Literal
import Reckon.Registry.Basic
import Reckon.Text.Blank
/-!
# Tokens of the legacy route

The legacy route knows numbers and symbols: operators, parentheses and names, the latter with underscores. A constant
is replaced by its value here. Whatever belongs to no token is skipped, commas included.
-/

namespace Reckon.Legacy

/-- A number, or the text of any other token. A comparison with `==` compares numbers as doubles. -/
inductive Token where
  | number (value : Float)
  | symbol (text : String)
  deriving BEq, Repr

namespace Token

/-- The text of the token. -/
def text : Token → String
  | number v => Number.plain v
  | symbol s => s

/-- The token as a JSON value. -/
def json : Token → Json
  | number v => .float v
  | symbol s => .string s

/-- The characters that are symbols by themselves. -/
def isSymbol (c : Char) : Bool := c ∈ ['(', ')', '^', '*', '/', '+', '-']

/-- The characters that a name begins with. -/
def isNameStart (c : Char) : Bool := c.isAlpha || c == '_'

/-- The characters that a name goes on with. -/
def isNameChar (c : Char) : Bool := c.isAlphanum || c == '_'

/-- The token of a name: the value of a constant, or else the name. -/
def ofName (r : Registry) (name : String) : Token :=
  match r.constant? name with
  | some c => number c.value
  | none => symbol name

/-- The longest token that starts with the character `c`, and the characters that it takes of `rest`. -/
def longest? (r : Registry) (c : Char) (rest : List Char) : Option (Token × List Char) :=
  if isSymbol c then some (symbol (String.singleton c), [])
  else if c.isDigit then
    let whole := rest.takeWhile Char.isDigit
    let more :=
      match rest.dropWhile Char.isDigit with
      | '.' :: fraction => whole ++ '.' :: fraction.takeWhile Char.isDigit
      | _ => whole
    some (number (Number.ofLiteral (c :: more)), more)
  else if c = '.' then
    match rest.takeWhile Char.isDigit with
    | [] => none
    | d :: ds => some (number (Number.ofLiteral (c :: d :: ds)), d :: ds)
  else if isNameStart c then
    let more := rest.takeWhile isNameChar
    some (ofName r (String.ofList (c :: more)), more)
  else none

/-- The tokens of a text. -/
def lex (r : Registry) : List Char → List Token
  | [] => []
  | c :: rest =>
    match longest? r c rest with
    | none => lex r rest
    | some (t, more) => t :: lex r (rest.drop more.length)
  termination_by text => text.length

end Token

end Reckon.Legacy
