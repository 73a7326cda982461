import Reckon.Operator
import Reckon.Source.Span
/-!
# Expressions

The tree of an expression. Every node knows the span of its source text; parentheses leave no node behind, but the
span of what they enclose covers them.
-/

namespace Reckon

/-- An expression with its span. -/
inductive Expr where
  | number (value : Float) (span : Span)
  | constant (name : String) (value : Float) (span : Span)
  | negate (operand : Expr) (span : Span)
  | binary (op : Operator) (left right : Expr) (span : Span)
  | call (name : String) (args : List Expr) (span : Span)
  deriving Inhabited

namespace Expr

/-- The span of the node. -/
def span : Expr → Span
  | number _ s => s
  | constant _ _ s => s
  | negate _ s => s
  | binary _ _ _ s => s
  | call _ _ s => s

/-- The same node with another span. -/
def withSpan : Expr → Span → Expr
  | number v _, s => number v s
  | constant name v _, s => constant name v s
  | negate e _, s => negate e s
  | binary op l r _, s => binary op l r s
  | call name args _, s => call name args s

/-- The negation of an operand, from its sign on. -/
def negated (sign : Span) (operand : Expr) : Expr := negate operand (sign.merge operand.span)

/-- The operator between its two operands. -/
def joined (op : Operator) (left right : Expr) : Expr := binary op left right (left.span.merge right.span)

/-- The operands or arguments of the node. -/
def children : Expr → List Expr
  | number _ _ => []
  | constant _ _ _ => []
  | negate e _ => [e]
  | binary _ l r _ => [l, r]
  | call _ args _ => args

mutual

/-- Whether two trees agree in everything, spans included, where values are compared as doubles: zeros are equal
whatever their sign, and NaN equals nothing. -/
def same : Expr → Expr → Bool
  | number v s, number v' s' => v == v' && s == s'
  | constant name v s, constant name' v' s' => name == name' && v == v' && s == s'
  | negate e s, negate e' s' => same e e' && s == s'
  | binary op l r s, binary op' l' r' s' => op == op' && same l l' && same r r' && s == s'
  | call name args s, call name' args' s' => name == name' && sameAll args args' && s == s'
  | _, _ => false

/-- Whether two lists of trees agree one by one. -/
def sameAll : List Expr → List Expr → Bool
  | [], [] => true
  | e :: es, e' :: es' => same e e' && sameAll es es'
  | _, _ => false

end

instance : BEq Expr := ⟨same⟩

mutual

/-- The number of nodes of a tree. -/
def size : Expr → Nat
  | number _ _ => 1
  | constant _ _ _ => 1
  | negate e _ => size e + 1
  | binary _ l r _ => size l + size r + 1
  | call _ args _ => sizeAll args + 1

/-- The number of nodes of some trees. -/
def sizeAll : List Expr → Nat
  | [] => 0
  | e :: es => size e + sizeAll es

end

theorem sizeAll_append (es fs : List Expr) : sizeAll (es ++ fs) = sizeAll es + sizeAll fs := by
  induction es with
  | nil => simp [sizeAll]
  | cons e es ih => simp [sizeAll, ih, Nat.add_assoc]

theorem size_eq_children (e : Expr) : size e = sizeAll e.children + 1 := by
  cases e <;> simp [size, sizeAll, children]

/-- Counts the nodes of the pending trees, one at a time, its children going to the pending ones. -/
def countPending (count : Nat) : List Expr → Nat
  | [] => count
  | e :: pending => countPending (count + 1) (e.children ++ pending)
  termination_by pending => sizeAll pending
  decreasing_by rw [sizeAll_append, sizeAll, size_eq_children]; omega

/-- The number of nodes of the tree, counted without recursion into it. -/
def nodeCount (e : Expr) : Nat := countPending 0 [e]

end Expr

end Reckon
