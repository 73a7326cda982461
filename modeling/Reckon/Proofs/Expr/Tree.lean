import Reckon.Expr.Basic
/-!
# Expressions without their spans

Most of what is said about an expression does not depend on where its nodes stand in a source. A tree is what is left
of an expression when the spans are forgotten.
-/

namespace Reckon

/-- An expression without its spans. -/
inductive Tree where
  | number (value : Float)
  | constant (name : String) (value : Float)
  | negate (operand : Tree)
  | binary (op : Operator) (left right : Tree)
  | call (name : String) (args : List Tree)

namespace Expr

mutual

/-- The expression without its spans. -/
def tree : Expr → Tree
  | number v _ => .number v
  | constant name v _ => .constant name v
  | negate e _ => .negate (tree e)
  | binary op l r _ => .binary op (tree l) (tree r)
  | call name args _ => .call name (trees args)

/-- Some expressions without their spans. -/
def trees : List Expr → List Tree
  | [] => []
  | e :: es => tree e :: trees es

end

@[simp] theorem tree_withSpan (e : Expr) (s : Span) : (e.withSpan s).tree = e.tree := by
  cases e <;> simp [withSpan, tree]

@[simp] theorem tree_negated (sign : Span) (e : Expr) : (negated sign e).tree = .negate e.tree := by
  simp [negated, tree]

@[simp] theorem tree_joined (op : Operator) (l r : Expr) : (joined op l r).tree = .binary op l.tree r.tree := by
  simp [joined, tree]

end Expr

end Reckon
