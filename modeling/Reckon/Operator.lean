import Reckon.Number.Magnitude
/-!
# Operators

The six operators that stand between two operands, how tightly they bind, and what they compute on doubles.
-/

namespace Reckon

/-- An operator between two operands. -/
inductive Operator where
  | add
  | sub
  | mul
  | div
  | rem
  | pow
  deriving DecidableEq, Repr

namespace Operator

/-- Every operator. -/
def all : List Operator := [add, sub, mul, div, rem, pow]

/-- The symbol that the operator is printed as. -/
def symbol : Operator → String
  | add => "+"
  | sub => "-"
  | mul => "*"
  | div => "/"
  | rem => "%"
  | pow => "^"

/-- The name of the operator in dumps. -/
def name : Operator → String
  | add => "Add"
  | sub => "Sub"
  | mul => "Mul"
  | div => "Div"
  | rem => "Rem"
  | pow => "Pow"

/-- Of two operators the one with the higher precedence binds tighter. -/
def precedence : Operator → Nat
  | pow => 4
  | mul | div | rem => 3
  | add | sub => 2

/-- Whether a chain of the operator groups to the right. -/
def isRightAssoc : Operator → Bool
  | pow => true
  | _ => false

/-- The least precedence of an operator inside the right operand: a chain that groups to the left leaves its own
precedence out. -/
def rightPrecedence (op : Operator) : Nat := if op.isRightAssoc then op.precedence else op.precedence + 1

/-- The operator on doubles. Division by zero gives an infinity or NaN. -/
def apply : Operator → Float → Float → Float
  | add, x, y => x + y
  | sub, x, y => x - y
  | mul, x, y => x * y
  | div, x, y => x / y
  | rem, x, y => Number.remainder x y
  | pow, x, y => Float.pow x y

end Operator

end Reckon
