import Reckon.Legacy.Admission
import Reckon.Legacy.Token
import Reckon.Operator
/-!
# Programs of the legacy route

The legacy route turns its tokens into a program for a machine with one stack: operands come before their operator
and an argument before its function. Operators, functions and open parentheses wait on a stack of their own until the
program may have them. The precedences are those of the legacy route, which knows no remainder.
-/

namespace Reckon.Legacy

/-- A step of a program. -/
inductive Item where
  | number (value : Float)
  | operator (op : Operator)
  | function (f : NativeFunction)

/-- What waits for its place in the program. -/
inductive Pending where
  | opening
  | operator (op : Operator)
  | function (f : NativeFunction)

/-- The step that waits, if it is one. -/
def Pending.item? : Pending → Option Item
  | opening => none
  | operator op => some (.operator op)
  | function f => some (.function f)

/-- The operator of a symbol. -/
def operator? : String → Option Operator
  | "+" => some .add
  | "-" => some .sub
  | "*" => some .mul
  | "/" => some .div
  | "^" => some .pow
  | _ => none

/-- Of two operators the one with the higher precedence binds tighter. -/
def precedence : Operator → Nat
  | .add | .sub => 1
  | .mul | .div | .rem => 2
  | .pow => 3

/-- Whether the operator `top` goes into the program when `op` arrives. -/
def yields (op top : Operator) : Bool :=
  if op.isRightAssoc then precedence op < precedence top else precedence op ≤ precedence top

/-- Makes way for the operator `op`: what goes into the program, and what waits on. A function that waits here has no
argument yet. -/
def makeWay (op : Operator) : List Pending → Except Error (List Item × List Pending)
  | .operator top :: stack =>
    if yields op top then
      match makeWay op stack with
      | .ok (items, rest) => .ok (.operator top :: items, rest)
      | .error e => .error e
    else .ok ([], .operator top :: stack)
  | .function f :: _ => .error (.functionWithoutArgument f.name)
  | stack => .ok ([], stack)

/-- Closes a group: everything down to its parenthesis goes into the program, and a function before it too. -/
def closeGroup : List Pending → List Item × List Pending
  | [] => ([], [])
  | .opening :: .function f :: stack => ([.function f], stack)
  | .opening :: stack => ([], stack)
  | .operator op :: stack => (.operator op :: (closeGroup stack).1, (closeGroup stack).2)
  | .function f :: stack => (.function f :: (closeGroup stack).1, (closeGroup stack).2)

/-- Takes one token: what goes into the program, and what waits afterwards. A name that is not known vanishes. -/
def step (r : Registry) (stack : List Pending) : Token → Except Error (List Item × List Pending)
  | .number v => .ok ([.number v], stack)
  | .symbol s =>
    match r.function? s with
    | some f => .ok ([], .function f :: stack)
    | none =>
      match operator? s with
      | some op =>
        match makeWay op stack with
        | .ok (items, rest) => .ok (items, .operator op :: rest)
        | .error e => .error e
      | none =>
        if s = "(" then .ok ([], .opening :: stack)
        else if s = ")" then .ok (closeGroup stack)
        else .ok ([], stack)

/-- The program of some tokens when `stack` waits already. -/
def convert (r : Registry) (stack : List Pending) : List Token → Except Error (List Item)
  | [] => .ok (stack.filterMap Pending.item?)
  | t :: ts =>
    match step r stack t with
    | .error e => .error e
    | .ok (items, rest) =>
      match convert r rest ts with
      | .error e => .error e
      | .ok more => .ok (items ++ more)

/-- The number on top of a stack, NaN if it is empty. -/
def top (stack : List Float) : Float := stack.headD Number.nan

/-- Takes one step of a program. A function gets one argument and the defaults of its other parameters. -/
def execute (stack : List Float) : Item → Except Panic (List Float)
  | .number v => .ok (v :: stack)
  | .operator op => .ok (op.apply (top (stack.drop 1)) (top stack) :: stack.drop 2)
  | .function f =>
    match f.call [top stack] with
    | .ok v => .ok (v :: stack.drop 1)
    | .error p => .error p

/-- The value of a program that finds a stack. -/
def valueFrom (stack : List Float) : List Item → Except Panic Float
  | [] => .ok (top stack)
  | item :: items =>
    match execute stack item with
    | .ok stack => valueFrom stack items
    | .error p => .error p

/-- The value of a program. -/
def value (program : List Item) : Except Panic Float := valueFrom [] program

end Reckon.Legacy
