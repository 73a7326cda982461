import Reckon.Proofs.Expr.Climbing
import Reckon.Proofs.Token.Splitting
/-!
# Nodes in the order of the source

Every number, constant, operator and function of an expression is one token of its source, and parentheses and commas
leave no node behind. So the nodes of a tree, read in the order of the source, are the tokens of that sort in their
order; what is known of the tokens is known of the tree.
-/

namespace Reckon

/-- What a node of a tree is, its operands left out. A sign is written as a subtraction is. -/
inductive Node where
  | number (value : Float)
  | constant (name : String) (value : Float)
  | operator (op : Operator)
  | function (name : String)

/-- The node that a token of the kind stands for. -/
def Token.Kind.node? : Token.Kind → Option Node
  | integer v => some (.number v)
  | decimal v => some (.number v)
  | constant name v => some (.constant name v)
  | operator op => some (.operator op)
  | function name => some (.function name)
  | leftParen | rightParen | comma | eof => none

namespace Tree

mutual

/-- The nodes of a tree in the order of the source. -/
def nodes : Tree → List Node
  | number v => [.number v]
  | constant name v => [.constant name v]
  | negate t => .operator .sub :: nodes t
  | binary op l r => nodes l ++ .operator op :: nodes r
  | call name args => .function name :: nodesAll args

/-- The nodes of some trees in the order of the source. -/
def nodesAll : List Tree → List Node
  | [] => []
  | t :: ts => nodes t ++ nodesAll ts

end

end Tree

mutual

/-- The nodes of a derived tree are its tokens without the punctuation. -/
theorem Derives.filterMap_node? : ∀ {level : Level} {ks : List Token.Kind} {t : Tree}, Derives level ks t →
    ks.filterMap Token.Kind.node? = t.nodes
  | _, _, _, .product h | _, _, _, .power h | _, _, _, .primary h => h.filterMap_node?
  | _, _, _, .sumChain _ hl hr | _, _, _, .productChain _ hl hr | _, _, _, .powerChain hl hr => by
    simp only [List.filterMap_append, List.filterMap_cons, Token.Kind.node?, Tree.nodes, hl.filterMap_node?,
      hr.filterMap_node?]
  | _, _, _, .integer v | _, _, _, .decimal v | _, _, _, .constant name v | _, _, _, .bareCall name => rfl
  | _, _, _, .group h => by
    simp only [List.filterMap_append, List.filterMap_cons, List.filterMap_nil, Token.Kind.node?, List.append_nil,
      h.filterMap_node?]
  | _, _, _, .negate h => by simp only [List.filterMap_cons, Token.Kind.node?, Tree.nodes, h.filterMap_node?]
  | _, _, _, .call name h => by
    simp only [List.filterMap_append, List.filterMap_cons, List.filterMap_nil, Token.Kind.node?, Tree.nodes,
      List.append_nil, h.filterMap_node?]

theorem DerivesAll.filterMap_node? : ∀ {ks : List Token.Kind} {ts : List Tree}, DerivesAll ks ts →
    ks.filterMap Token.Kind.node? = Tree.nodesAll ts
  | _, _, .one h => by simp only [Tree.nodesAll, List.append_nil, h.filterMap_node?]
  | _, _, .more h hs => by
    simp only [List.filterMap_append, List.filterMap_cons, Token.Kind.node?, Tree.nodesAll, h.filterMap_node?,
      hs.filterMap_node?]

end

/-! ## Nodes of a registry -/

/-- The registry has the name of the node, and a constant's value is that of the registry. -/
def Node.Registered (r : Registry) : Node → Prop
  | number _ | operator _ => True
  | constant name v => ∃ c ∈ r.constants, c.name = name ∧ c.value = v
  | function name => ∃ f ∈ r.functions, f.name = name

/-- Every name in the tree is registered. -/
def Tree.Registered (r : Registry) (t : Tree) : Prop := ∀ n ∈ t.nodes, n.Registered r

namespace Token

theorem registered_of_kindOf {r : Registry} {text : List Char} {s : Shape} {kind : Kind}
    (h : r.kindOf text s = .ok kind) {n : Node} (hn : kind.node? = some n) : n.Registered r := by
  cases s with
  | name =>
    rcases of_resolve h with ⟨c, hc, -, rfl⟩ | ⟨f, hf, -, rfl⟩
    · cases hn
      exact ⟨c, hc, rfl, rfl⟩
    · cases hn
      exact ⟨f, hf, rfl⟩
  | leftParen | rightParen | comma =>
    cases h
    cases hn
  | operator | integer | decimal =>
    cases h
    cases hn
    trivial

/-- The lexer gives registered names only. -/
theorem Splits.registered {r : Registry} {here : Nat} {cs : List Char} {pieces : List Piece}
    (h : Splits r here cs pieces) {p : Piece} (hp : p ∈ pieces) {n : Node} (hn : p.kind.node? = some n) :
    n.Registered r := by
  induction h with
  | done here =>
    cases List.mem_singleton.1 hp
    cases hn
  | blank _ _ ih => exact ih hp
  | lexeme _ hk _ ih =>
    rcases List.mem_cons.1 hp with rfl | hp
    · exact registered_of_kindOf hk hn
    · exact ih hp

/-- A tree has no other names than the tokens that it is read from. -/
theorem registered_of_tokens {r : Registry} {tokens : List Token} {e : Expr}
    (h : ∀ t ∈ tokens, ∀ n, t.kind.node? = some n → n.Registered r) (he : Expr.ofTokens tokens = .ok e) :
    e.tree.Registered r := by
  intro n hn
  rw [← (derives_of_ofTokens he).filterMap_node?] at hn
  obtain ⟨k, hk, hkn⟩ := List.mem_filterMap.1 hn
  obtain ⟨t, ht, rfl⟩ := mem_of_mem_content hk
  exact h t ht n hkn

/-- A tree that is read from a source has registered names only. -/
theorem registered_of_lex {r : Registry} {source : String} {tokens : List Token} {e : Expr}
    (hl : lex r source = .ok tokens) (he : Expr.ofTokens tokens = .ok e) : e.tree.Registered r :=
  registered_of_tokens (fun _ ht _ hn => (lex_eq_ok_iff.1 ⟨tokens, hl, rfl⟩).registered (List.mem_map_of_mem ht) hn) he

end Token

end Reckon
