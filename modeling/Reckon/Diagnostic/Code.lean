/-!
# Diagnostic codes

Every kind of failure has a code: `E0` for unreadable characters and names, `E1` for ungrammatical input, `E6` for
computations that cannot be carried out, `E9` for native code that breaks off.
-/

namespace Reckon

/-- The code of a kind of failure. -/
inductive Code where
  | unrecognizedCharacter
  | unknownIdentifier
  | unexpectedEof
  | unexpectedToken
  | unexpectedOperator
  | missingToken
  | trailingInput
  | undefinedFunction
  | fault
  deriving DecidableEq, Repr

namespace Code

/-- Every code in ascending order. -/
def all : List Code :=
  [unrecognizedCharacter, unknownIdentifier, unexpectedEof, unexpectedToken, unexpectedOperator, missingToken,
    trailingInput, undefinedFunction, fault]

/-- The code as it is printed. -/
def text : Code → String
  | unrecognizedCharacter => "E0001"
  | unknownIdentifier => "E0002"
  | unexpectedEof => "E1001"
  | unexpectedToken => "E1002"
  | unexpectedOperator => "E1003"
  | missingToken => "E1004"
  | trailingInput => "E1005"
  | undefinedFunction => "E6001"
  | fault => "E9001"

/-- One line that explains the code. -/
def description : Code → String
  | unrecognizedCharacter => "a character that starts no token"
  | unknownIdentifier => "a name that is neither a constant nor a function"
  | unexpectedEof => "input ended where an operand was expected"
  | unexpectedToken => "a token that cannot start an expression"
  | unexpectedOperator => "a binary operator with no left operand"
  | missingToken => "a required token, usually `(` or `)`, is missing"
  | trailingInput => "input continues after a complete expression"
  | undefinedFunction => "a call to a function the registry does not define"
  | fault => "a native function or stage panicked"

/-- The code that a text names, in upper or lower case. -/
def ofText? (s : String) : Option Code :=
  all.find? fun code => code.text.toList.map Char.toLower = s.toList.map Char.toLower

end Code

end Reckon
