import Reckon.Registry.Basic
import Reckon.Text.Blank
/-!
# Admission to the legacy route

The legacy route looks an expression over before it reads it. The parentheses have to balance, and what is left once
every known name is taken out has to consist of digits, operator and punctuation characters and white space, and not
be empty.
-/

namespace Reckon.Legacy

/-- Why the legacy route turns an expression down. -/
inductive Error where
  | tooManyClosing
  | tooManyOpening
  | invalidCharacters (rest : String)
  | functionWithoutArgument (name : String)
  deriving DecidableEq, Repr

/-- What is wrong. -/
def Error.message : Error → String
  | tooManyClosing => "Mismatched parentheses - too many closing parentheses."
  | tooManyOpening => "Mismatched parentheses - too many opening parentheses."
  | invalidCharacters rest => "Expression contains invalid characters or unsupported tokens '" ++ rest ++ "'"
  | functionWithoutArgument name => "Function `" ++ name ++ "` must be followed by a parenthesized argument"

/-- Checks the parentheses of a text that stands inside `depth` open ones. -/
def checkBalance (depth : Nat) : List Char → Except Error Unit
  | [] => if 0 < depth then .error .tooManyOpening else .ok ()
  | c :: cs =>
    if c = '(' then checkBalance (depth + 1) cs
    else if c = ')' then
      if depth = 0 then .error .tooManyClosing else checkBalance (depth - 1) cs
    else checkBalance depth cs

/-- The characters of words. -/
def isWordChar (c : Char) : Bool := c.isAlphanum || c == '_'

/-- Whether the text begins with a name that no word character follows. -/
def beginsWith (text name : List Char) : Bool :=
  name.isPrefixOf text && !(text.drop name.length).head?.any isWordChar

/-- The text without the names that stand in it as whole words, where `before` is the character in front of it. A
name is taken out only where no word character stands before it, and of several the first in the list. -/
def withoutNames (names : List (List Char)) (before : Option Char) : List Char → List Char
  | [] => []
  | c :: cs =>
    match if before.any isWordChar then none else names.find? (beginsWith (c :: cs)) with
    | some name => withoutNames names name.getLast? (cs.drop (name.length - 1))
    | none => c :: withoutNames names (some c) cs
  termination_by text => text.length

/-- The characters that may be left when the names are taken out. -/
def isAdmitted (c : Char) : Bool :=
  c.isDigit || c ∈ ['+', '-', '*', '/', '^', '(', ')', ',', '.'] || Text.isBlank c

/-- Looks an expression over. -/
def check (r : Registry) (expression : String) : Except Error Unit :=
  match checkBalance 0 expression.toList with
  | .error e => .error e
  | .ok () =>
    let rest := withoutNames (r.names.map String.toList) none expression.toList
    if rest = [] ∨ ¬ rest.all isAdmitted then .error (.invalidCharacters (String.ofList rest)) else .ok ()

end Reckon.Legacy
