import Reckon.Diagnostic.Basic
import Reckon.Expr.Basic
import Reckon.Registry.Basic
/-!
# Values of expressions

The value of a tree, computed from the leaves up. Left operands come before right ones and arguments before the
look-up of their function, so of several failures the first in this order is reported.
-/

namespace Reckon

/-- A call of a function that the registry does not have. -/
structure EvalError where
  name : String
  span : Span
  deriving DecidableEq, Repr

namespace EvalError

/-- What is wrong. -/
def message (e : EvalError) : String := "Unknown function `" ++ e.name ++ "`"

/-- The code of the error. -/
def code (_ : EvalError) : Code := .undefinedFunction

/-- The report of the error. -/
def diagnostic (e : EvalError) : Diagnostic :=
  .ofLabel e.code e.message e.span "not defined in this registry"
    ["the tree was built against a different registry"]

end EvalError

/-- Why a computation ends without a value. -/
inductive Halt where
  | error (e : EvalError)
  | panic (p : Panic)
  deriving DecidableEq, Repr

namespace Registry

/-- The value of a call of the named function at `span`. -/
def callValue (r : Registry) (name : String) (span : Span) (args : List Float) : Except Halt Float :=
  match r.function? name with
  | none => .error (.error ⟨name, span⟩)
  | some f =>
    match f.call args with
    | .ok v => .ok v
    | .error p => .error (.panic p)

end Registry

namespace Expr

mutual

/-- The value of a tree. A constant takes its value from the registry if it is there, and else the one it was read
with. -/
def eval (r : Registry) : Expr → Except Halt Float
  | number v _ => .ok v
  | constant name v _ =>
    match r.constant? name with
    | some c => .ok c.value
    | none => .ok v
  | negate e _ =>
    match eval r e with
    | .ok x => .ok (-x)
    | .error h => .error h
  | binary op left right _ =>
    match eval r left with
    | .error h => .error h
    | .ok x =>
      match eval r right with
      | .error h => .error h
      | .ok y => .ok (op.apply x y)
  | call name args span =>
    match evalAll r args with
    | .error h => .error h
    | .ok xs => r.callValue name span xs

/-- The values of some trees. -/
def evalAll (r : Registry) : List Expr → Except Halt (List Float)
  | [] => .ok []
  | e :: es =>
    match eval r e with
    | .error h => .error h
    | .ok x =>
      match evalAll r es with
      | .error h => .error h
      | .ok xs => .ok (x :: xs)

end

end Expr

end Reckon
