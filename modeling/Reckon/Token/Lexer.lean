import Reckon.Diagnostic.Basic
import Reckon.Number.Literal
import Reckon.Registry.Basic
import Reckon.Token.Basic
/-!
# The lexer

Cuts a source into tokens. Spaces, tabs and line breaks between lexemes are skipped; a lexeme is the longest text
from its first character on that has one of the shapes below. Names are looked up in a registry, constants before
functions. The first character that starts no lexeme, or the first unknown name, ends the work with an error;
otherwise the tokens end with exactly one that marks the end of the input.
-/

namespace Reckon

/-- The shape of a lexeme. -/
inductive Shape where
  | leftParen
  | rightParen
  | comma
  | operator (op : Operator)
  | integer
  | decimal
  | name
  deriving DecidableEq, Repr

namespace Shape

/-- The characters that are skipped between lexemes. -/
def isBlank (c : Char) : Bool := c == ' ' || c == '\t' || c == '\r' || c == '\n'

/-- The longest lexeme that starts with the character `c`: its shape, and the characters that it takes of `rest`. -/
def longest? (c : Char) (rest : List Char) : Option (Shape × List Char) :=
  if c.isDigit then
    let whole := rest.takeWhile Char.isDigit
    match rest.dropWhile Char.isDigit with
    | '.' :: fraction => some (decimal, whole ++ '.' :: fraction.takeWhile Char.isDigit)
    | _ => some (integer, whole)
  else if c.isAlpha then some (name, rest.takeWhile Char.isAlphanum)
  else
    match c with
    | '(' => some (leftParen, [])
    | ')' => some (rightParen, [])
    | ',' => some (comma, [])
    | '+' => some (operator .add, [])
    | '-' => some (operator .sub, [])
    | '*' =>
      match rest with
      | '*' :: _ => some (operator .pow, ['*'])
      | _ => some (operator .mul, [])
    | '/' => some (operator .div, [])
    | '%' => some (operator .rem, [])
    | '^' => some (operator .pow, [])
    | '.' =>
      match rest.takeWhile Char.isDigit with
      | [] => none
      | d :: ds => some (decimal, d :: ds)
    | _ => none

end Shape

/-- Why a source cannot be cut into tokens. -/
inductive LexError.Kind where
  | unrecognizedCharacter (c : Char)
  | unknownIdentifier (name : String)
  deriving DecidableEq, Repr

/-- The first place where a source cannot be cut into tokens. -/
structure LexError where
  kind : LexError.Kind
  span : Span
  location : Location
  deriving DecidableEq, Repr

namespace LexError

/-- What is wrong. -/
def Kind.message : Kind → String
  | unrecognizedCharacter c => "Unrecognized character `" ++ String.singleton c ++ "`"
  | unknownIdentifier name => "Unknown identifier `" ++ name ++ "`"

/-- What is wrong and where. -/
def message (e : LexError) : String := e.kind.message ++ " at " ++ e.location.text

/-- The code of the error. -/
def code (e : LexError) : Code :=
  match e.kind with
  | .unrecognizedCharacter _ => .unrecognizedCharacter
  | .unknownIdentifier _ => .unknownIdentifier

/-- The report of the error. -/
def diagnostic (e : LexError) : Diagnostic :=
  match e.kind with
  | .unrecognizedCharacter _ => .ofLabel e.code e.kind.message e.span "not part of any token" []
  | .unknownIdentifier _ =>
    .ofLabel e.code e.kind.message e.span "not a known constant or function"
      ["names are case-sensitive; run `arith functions` to list them"]

end LexError

namespace Registry

/-- The token that a name stands for. -/
def resolve (r : Registry) (name : String) : Except LexError.Kind Token.Kind :=
  match r.constant? name with
  | some c => .ok (.constant c.name c.value)
  | none =>
    match r.function? name with
    | some f => .ok (.function f.name)
    | none => .error (.unknownIdentifier name)

/-- The token that a lexeme stands for. -/
def kindOf (r : Registry) (text : List Char) : Shape → Except LexError.Kind Token.Kind
  | .leftParen => .ok .leftParen
  | .rightParen => .ok .rightParen
  | .comma => .ok .comma
  | .operator op => .ok (.operator op)
  | .integer => .ok (.integer (Number.ofLiteral text))
  | .decimal => .ok (.decimal (Number.ofLiteral text))
  | .name => r.resolve (String.ofList text)

end Registry

namespace Token

/-- The token that ends the input. -/
def atEnd (location : Location) : Token := ⟨.eof, .point location.offset, location⟩

/-- The tokens of the rest of a source that begins at the byte `here`. -/
def lexFrom (r : Registry) (tracker : Tracker) (here : Nat) : List Char → Except LexError (List Token)
  | [] => .ok [atEnd (tracker.locate here).location]
  | c :: rest =>
    if Shape.isBlank c then lexFrom r tracker (here + c.utf8Size) rest
    else
      let tracker := tracker.locate here
      match Shape.longest? c rest with
      | none => .error ⟨.unrecognizedCharacter c, ⟨here, here + c.utf8Size⟩, tracker.location⟩
      | some (shape, more) =>
        let span : Span := ⟨here, here + byteLength (c :: more)⟩
        match r.kindOf (c :: more) shape with
        | .error kind => .error ⟨kind, span, tracker.location⟩
        | .ok kind =>
          match lexFrom r tracker span.stop (rest.drop more.length) with
          | .error e => .error e
          | .ok tokens => .ok (⟨kind, span, tracker.location⟩ :: tokens)
  termination_by source => source.length

/-- The tokens of a source. -/
def lex (r : Registry) (source : String) : Except LexError (List Token) :=
  lexFrom r (.ofSource source.toList) 0 source.toList

end Token

end Reckon
