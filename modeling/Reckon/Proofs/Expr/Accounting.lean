import Reckon.Proofs.Expr.Listing
import Reckon.Proofs.Expr.Nodes
/-!
# Every token but the punctuation is one node

The nodes of a tree are visited in the order of the source: an operator between its operands, a sign or a function
before what it is applied to. What is visited in a tree that is read from tokens are these tokens in their order,
parentheses and commas left out. There are as many as the tree is counted to have nodes, in whatever order the pending
trees are taken up when they are counted.
-/

namespace Reckon

namespace Expr

mutual

/-- The nodes of a tree in the order of the source. -/
def inorder : Expr → List Expr
  | number v s => [number v s]
  | constant name v s => [constant name v s]
  | negate e s => negate e s :: inorder e
  | binary op l r s => inorder l ++ binary op l r s :: inorder r
  | call name args s => call name args s :: inorderAll args

/-- The nodes of some trees in the order of the source. -/
def inorderAll : List Expr → List Expr
  | [] => []
  | e :: es => inorder e ++ inorderAll es

end

/-- What the node is, its operands left out. -/
def node : Expr → Node
  | number v _ => .number v
  | constant name v _ => .constant name v
  | negate _ _ => .operator .sub
  | binary op _ _ _ => .operator op
  | call name _ _ => .function name

/-! ## The order of the source -/

mutual

/-- The order does not depend on the spans. -/
theorem map_node_inorder (e : Expr) : e.inorder.map node = e.tree.nodes := by
  cases e with
  | number v s | constant name v s => rfl
  | negate e s => rw [inorder, List.map_cons, map_node_inorder e]; rfl
  | binary op l r s =>
    rw [inorder, List.map_append, List.map_cons, map_node_inorder l, map_node_inorder r]
    rfl
  | call name args s => rw [inorder, List.map_cons, map_node_inorderAll args]; rfl

theorem map_node_inorderAll (es : List Expr) : (inorderAll es).map node = Tree.nodesAll (trees es) := by
  cases es with
  | nil => rfl
  | cons e es => rw [inorderAll, List.map_append, map_node_inorder e, map_node_inorderAll es]; rfl

end

mutual

theorem length_inorder (e : Expr) : e.inorder.length = e.size := by
  cases e with
  | number v s | constant name v s => rfl
  | negate e s => rw [inorder, List.length_cons, length_inorder e, size]
  | binary op l r s =>
    rw [inorder, List.length_append, List.length_cons, length_inorder l, length_inorder r, size]
    rfl
  | call name args s => rw [inorder, List.length_cons, length_inorderAll args, size]

theorem length_inorderAll (es : List Expr) : (inorderAll es).length = sizeAll es := by
  cases es with
  | nil => rfl
  | cons e es => rw [inorderAll, List.length_append, length_inorder e, length_inorderAll es, sizeAll]

end

/-! ## Counting in any order -/

/-- The nodes of the pending trees are counted one at a time: any of the trees is taken up, and its children become
pending. -/
inductive Counted : List Expr → Nat → Prop
  | done : Counted [] 0
  | next {pending rest e n} : pending.Perm (e :: rest) → Counted (e.children ++ rest) n → Counted pending (n + 1)

theorem sizeAll_perm {es es' : List Expr} (h : es.Perm es') : sizeAll es = sizeAll es' := by
  induction h with
  | nil => rfl
  | cons e _ ih => rw [sizeAll, sizeAll, ih]
  | swap e e' es =>
    simp only [sizeAll]
    omega
  | trans _ _ ih ih' => exact ih.trans ih'

theorem Counted.eq_sizeAll {pending : List Expr} {n : Nat} (h : Counted pending n) : n = sizeAll pending := by
  induction h with
  | done => rfl
  | @next pending rest e n hperm _ ih =>
    rw [sizeAll_perm hperm, ih, sizeAll_append, sizeAll, size_eq_children]
    omega

theorem counted_sizeAll (count : Nat) (pending : List Expr) : Counted pending (sizeAll pending) := by
  -- The order of `countPending` is one of those that are possible, so the induction is along it.
  induction count, pending using countPending.induct with
  | case1 count => exact .done
  | case2 count e pending ih =>
    have hnext := Counted.next (.refl (e :: pending)) ih
    rw [sizeAll_append] at hnext
    rwa [sizeAll, size_eq_children, Nat.add_right_comm]

theorem nodeCount_eq (e : Expr) : e.nodeCount = e.size := by
  rw [nodeCount, countPending_eq, sizeAll, sizeAll, Nat.zero_add, Nat.add_zero]

/-- In every order the same number of nodes is counted. -/
theorem counted_iff {e : Expr} {n : Nat} : Counted [e] n ↔ n = e.nodeCount := by
  have hone : sizeAll [e] = e.nodeCount := by rw [nodeCount_eq, sizeAll, sizeAll, Nat.add_zero]
  constructor
  · intro h
    rw [h.eq_sizeAll, hone]
  · rintro rfl
    rw [← hone]
    exact counted_sizeAll 0 [e]

end Expr

variable {tokens : List Token} {e : Expr}

/-- A tree that is read has just one node for every token up to the end that is no parenthesis and no comma, in the
order of the tokens, and so many nodes are counted in it. -/
theorem inorder_of_ofTokens (h : Expr.ofTokens tokens = .ok e) :
    e.inorder.map Expr.node = (Token.content tokens).filterMap Token.Kind.node? ∧
      e.nodeCount = ((Token.content tokens).filterMap Token.Kind.node?).length ∧
      ∀ n, Expr.Counted [e] n ↔ n = e.nodeCount := by
  have hnodes : e.inorder.map Expr.node = (Token.content tokens).filterMap Token.Kind.node? := by
    rw [Expr.map_node_inorder, (derives_of_ofTokens h).filterMap_node?]
  refine ⟨hnodes, ?_, fun n => Expr.counted_iff⟩
  rw [← hnodes, List.length_map, Expr.length_inorder, Expr.nodeCount_eq]

/-- A sign in front of a call, and a group: eight of the thirteen tokens are nodes. -/
theorem inorder_of_ofTokens_signed : ∃ tokens e, Token.lex .standard "-log(8, 2) * (1 + PI)" = .ok tokens ∧
    Expr.ofTokens tokens = .ok e ∧ (Token.content tokens).length = 13 ∧ e.nodeCount = 8 ∧
    e.inorder.map Expr.node = (Token.content tokens).filterMap Token.Kind.node? := by
  have hread : ((Token.lex .standard "-log(8, 2) * (1 + PI)").toOption.map fun tokens =>
      ((Token.content tokens).length, ((Token.content tokens).filterMap Token.Kind.node?).length,
        (Expr.ofTokens tokens).toBool)) = some (13, 8, true) := by decide +kernel
  cases hl : Token.lex .standard "-log(8, 2) * (1 + PI)" with
  | error err =>
    rw [hl] at hread
    cases hread
  | ok tokens =>
    rw [hl] at hread
    injection hread with hread
    injection hread with hlength hread
    injection hread with hcount hok
    cases he : Expr.ofTokens tokens with
    | error err =>
      rw [he] at hok
      cases hok
    | ok e =>
      obtain ⟨hnodes, hnumber, -⟩ := inorder_of_ofTokens he
      exact ⟨tokens, e, rfl, he, hlength, hnumber.trans hcount, hnodes⟩

end Reckon
