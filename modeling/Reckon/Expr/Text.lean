import Reckon.Expr.Basic
import Reckon.Text.Column
import Reckon.Token.Basic
/-!
# Texts of expressions

Four ways to write a tree down. Its text has parentheses around every negation and every operator and can be read
again; its listing has one line for each node, with the children indented under it; its dump and its JSON value
show every field.
-/

namespace Reckon

namespace Expr

mutual

/-- The text of a tree, which shows how its operators are grouped. -/
def text : Expr → String
  | number v _ => Number.plain v
  | constant name _ _ => name
  | negate e _ => "(-" ++ text e ++ ")"
  | binary op l r _ => "(" ++ text l ++ " " ++ op.symbol ++ " " ++ text r ++ ")"
  | call name args _ => name ++ "(" ++ ", ".intercalate (texts args) ++ ")"

/-- The texts of some trees. -/
def texts : List Expr → List String
  | [] => []
  | e :: es => text e :: texts es

end

/-- The line of one node in a listing. -/
def headline (e : Expr) : String :=
  (match e with
  | number v _ => "Number " ++ Number.plain v
  | constant name v _ => "Constant " ++ name ++ " = " ++ Number.plain v
  | negate _ _ => "Unary -"
  | binary op _ _ _ => "Binary " ++ op.symbol
  | call name args _ => "Call " ++ name ++ "/" ++ args.length.repr) ++ " @ " ++ e.span.text

/-- The line of one node at a depth, indented by two spaces for each level. -/
def indented (depth : Nat) (e : Expr) : String := Text.spaces (2 * depth) ++ e.headline

mutual

/-- The lines of a tree at a depth: its own and those of its children. -/
def listing (depth : Nat) : Expr → List String
  | number v s => [indented depth (number v s)]
  | constant name v s => [indented depth (constant name v s)]
  | negate e s => indented depth (negate e s) :: listing (depth + 1) e
  | binary op l r s =>
    indented depth (binary op l r s) :: (listing (depth + 1) l ++ listing (depth + 1) r)
  | call name args s => indented depth (call name args s) :: listings (depth + 1) args

/-- The lines of some trees at a depth. -/
def listings (depth : Nat) : List Expr → List String
  | [] => []
  | e :: es => listing depth e ++ listings depth es

end

mutual

/-- The tree in full. -/
def dump : Expr → String
  | number v s => "Expr \x7b kind: Number(" ++ Number.pointed v ++ "), span: " ++ s.text ++ " \x7d"
  | constant name v s => "Expr \x7b kind: " ++ constantDump name v ++ ", span: " ++ s.text ++ " \x7d"
  | negate e s =>
    "Expr \x7b kind: Unary \x7b op: Neg, operand: " ++ dump e ++ " \x7d, span: " ++ s.text ++ " \x7d"
  | binary op l r s =>
    "Expr \x7b kind: Binary \x7b op: " ++ op.name ++ ", left: " ++ dump l ++ ", right: " ++ dump r ++
      " \x7d, span: " ++ s.text ++ " \x7d"
  | call name args s =>
    "Expr \x7b kind: Call \x7b name: " ++ Text.quoted name ++ ", args: [" ++ ", ".intercalate (dumps args) ++
      "] \x7d, span: " ++ s.text ++ " \x7d"

/-- Some trees in full. -/
def dumps : List Expr → List String
  | [] => []
  | e :: es => dump e :: dumps es

end

mutual

/-- The tree as a JSON object. -/
def json : Expr → Json
  | number v s => .object [("kind", .object [("Number", .float v)]), ("span", s.json)]
  | constant name v s => .object [("kind", .object [("Constant", .ofConstant name v)]), ("span", s.json)]
  | negate e s =>
    .object [("kind", .object [("Unary", .object [("op", .string "Neg"), ("operand", json e)])]), ("span", s.json)]
  | binary op l r s =>
    .object [("kind", .object [("Binary", .object [("op", .string op.name), ("left", json l), ("right", json r)])]),
      ("span", s.json)]
  | call name args s =>
    .object [("kind", .object [("Call", .object [("name", .string name), ("args", .array (jsons args))])]),
      ("span", s.json)]

/-- Some trees as JSON objects. -/
def jsons : List Expr → List Json
  | [] => []
  | e :: es => json e :: jsons es

end

end Expr

end Reckon
