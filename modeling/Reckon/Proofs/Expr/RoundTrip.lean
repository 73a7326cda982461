import Reckon.Expr.Text
import Reckon.Proofs.Expr.Meaning
import Reckon.Proofs.Expr.Writing
import Reckon.Proofs.Number.Plain
import Reckon.Proofs.Token.Overflow
/-!
# Reading printed trees

The text of a tree is lexed at the boundaries at which it was put together, and the tokens derive from a primary, so
whatever stands around them takes nothing from the tree and adds nothing to it. The tree that is read back differs in
one way: a number whose sign bit is set is written with a sign, and that is read as a negation. A text may be too long
for the counters of the lexer; `reread_text` is about texts of any size and says what that does to them.
-/

namespace Reckon

/-! ## What is read back -/

namespace Tree

mutual

/-- The tree that is read back from the text of a tree. -/
def reread : Tree → Tree
  | number v => if Number.isNegative v then negate (number (-v)) else number v
  | constant name v => constant name v
  | negate t => negate (reread t)
  | binary op l r => binary op (reread l) (reread r)
  | call name args => call name (rereadAll args)

/-- The trees that are read back from the texts of some trees. -/
def rereadAll : List Tree → List Tree
  | [] => []
  | t :: ts => reread t :: rereadAll ts

end

end Tree

/-- The node can be written so that it is read back: a number is finite, and a name is registered. -/
def Node.Printable (r : Registry) : Node → Prop
  | number v => Number.isFinite v = true
  | n => n.Registered r

/-- Every node can be written so that it is read back. -/
def Tree.Printable (r : Registry) (t : Tree) : Prop := ∀ n ∈ t.nodes, n.Printable r

variable {r : Registry}

instance : DecidablePred (Node.Printable r)
  | .number v => inferInstanceAs (Decidable (Number.isFinite v = true))
  | .constant name v => inferInstanceAs (Decidable (∃ c ∈ r.constants, c.name = name ∧ c.value = v))
  | .operator _ => inferInstanceAs (Decidable True)
  | .function name => inferInstanceAs (Decidable (∃ f ∈ r.functions, f.name = name))

instance : DecidablePred (Tree.Printable r) := fun t => inferInstanceAs (Decidable (∀ n ∈ t.nodes, n.Printable r))

theorem Node.Printable.registered {n : Node} (h : n.Printable r) : n.Registered r := by
  cases n with
  | number v => trivial
  | _ => exact h

theorem Tree.printable_binary {op : Operator} {left right : Tree} :
    (binary op left right).Printable r ↔ left.Printable r ∧ right.Printable r := by
  unfold Printable
  rw [nodes, List.forall_mem_append, List.forall_mem_cons]
  exact ⟨fun ⟨hl, _, hr⟩ => ⟨hl, hr⟩, fun ⟨hl, hr⟩ => ⟨hl, trivial, hr⟩⟩

namespace Tree

mutual

/-- Reading a tree back keeps its value. -/
theorem value_reread : ∀ t : Tree, t.Printable r → t.reread.value r = t.value r
  | number v, h => by
    have hv : Number.isFinite v = true := h _ List.mem_cons_self
    rw [reread]
    by_cases hs : Number.isNegative v = true
    · rw [if_pos hs]
      simp only [value, Number.neg_neg_of_isFinite hv]
    · rw [if_neg hs]
  | constant _ _, _ => rfl
  | negate t, h => by rw [reread, value, value, value_reread t (List.forall_mem_cons.1 h).2]
  | binary op left right, h => by
    obtain ⟨hl, hr⟩ := printable_binary.1 h
    rw [reread, value, value, value_reread left hl, value_reread right hr]
  | call name args, h => by rw [reread, value, value, values_rereadAll args (List.forall_mem_cons.1 h).2]

theorem values_rereadAll : ∀ ts : List Tree, (∀ n ∈ nodesAll ts, n.Printable r) →
    values r (rereadAll ts) = values r ts
  | [], _ => rfl
  | t :: ts, h => by
    rw [nodesAll, List.forall_mem_append] at h
    rw [rereadAll, values, values, value_reread t h.1, values_rereadAll ts h.2]

end

end Tree

/-! ## The text of a tree -/

/-- Every name of the registry is an identifier. -/
def Registry.NamesIdentifiers (r : Registry) : Prop := ∀ name ∈ r.names, Shape.name.Matches name.toList

instance : DecidablePred Registry.NamesIdentifiers := fun r =>
  inferInstanceAs (Decidable (∀ name ∈ r.names, Shape.name.Matches name.toList))

namespace Token

/-- A literal is written for its number. -/
theorem writes_literal {text : String} {v : Float} (h : Number.Literal text.toList v) :
    Writes r Closed .primary text (.number v) := by
  rcases h.shape with hm | hm
  · refine ⟨_, lexes_of_matches hm ?_ fun rest h => h.ends (.inl rfl), .integer v⟩
    rw [Registry.kindOf, h.value]
  · refine ⟨_, lexes_of_matches hm ?_ fun rest h => h.ends (.inr (.inl rfl)), .decimal v⟩
    rw [Registry.kindOf, h.value]

end Token

namespace Expr

open Token

mutual

/-- The text of a tree is lexed to tokens from which the tree that is read back derives. -/
theorem exists_derives_text (hr : r.NamesIdentifiers) : ∀ e : Expr, e.tree.Printable r →
    Writes r Closed .primary e.text e.tree.reread
  | number v _, h => by
    have hv : Number.isFinite v = true := h _ List.mem_cons_self
    rw [text, tree, Tree.reread]
    by_cases hs : Number.isNegative v = true
    · obtain ⟨text, ht, hlit⟩ := Number.literal_plain_of_isNegative hv hs
      rw [ht, if_pos hs]
      exact (writes_literal hlit).negate
    · rw [if_neg hs]
      exact writes_literal (Number.literal_plain hv (by simpa using hs))
  | constant name v _, h => by
    obtain ⟨c, hc, rfl, rfl⟩ := h _ List.mem_cons_self
    have hname := hr c.name (List.mem_append_right _ (List.mem_map_of_mem hc))
    exact ⟨_, lexes_identifier hname (resolve_constant hc), .constant c.name c.value⟩
  | negate e _, h => by
    have hoperand := exists_derives_text hr e (List.forall_mem_cons.1 h).2
    have hall := (hoperand.negate.toSum.group fun _ => closed_of_head rfl).closed
    rw [← String.append_assoc] at hall
    exact hall
  | binary op left right _, h => by
    obtain ⟨hleft, hright⟩ := Tree.printable_binary.1 h
    -- Each operand is closed off by the blank or the parenthesis behind it.
    have hboth := (exists_derives_text hr left hleft).binary op (exists_derives_text hr right hright)
      fun _ => closed_of_head rfl
    have hall := (hboth.group fun _ => closed_of_head rfl).closed
    simp only [← String.append_assoc] at hall
    exact hall
  | call name args _, h => by
    obtain ⟨⟨f, hf, rfl⟩, hargs⟩ := List.forall_mem_cons.1 h
    have hname := hr f.name (List.mem_append_left _ (List.mem_map_of_mem hf))
    rw [text]
    by_cases hne : args = []
    · subst hne
      rw [texts, String.intercalate_nil, String.append_empty]
      exact (Writes.bareCall hf hname).closed
    · exact (Writes.call hf hname (exists_derivesAll_texts hr args hne hargs) fun _ => closed_of_head rfl).closed

/-- The same for the arguments of a call. -/
theorem exists_derivesAll_texts (hr : r.NamesIdentifiers) : ∀ es : List Expr, es ≠ [] →
    (∀ n ∈ Tree.nodesAll (trees es), n.Printable r) →
    WritesAll r Closed (", ".intercalate (texts es)) (Tree.rereadAll (trees es))
  | [], hne, _ => absurd rfl hne
  | [e], _, h => by
    rw [trees, Tree.nodesAll, List.forall_mem_append] at h
    rw [texts, texts, String.intercalate_singleton]
    exact .one (exists_derives_text hr e h.1).toSum
  | e :: e' :: es, _, h => by
    rw [trees, Tree.nodesAll, List.forall_mem_append] at h
    have hrest := exists_derivesAll_texts hr (e' :: es) (List.cons_ne_nil _ _) h.2
    rw [texts, texts, String.intercalate_cons_cons]
    exact .more (exists_derives_text hr e h.1).toSum hrest fun _ => closed_of_head rfl

end

theorem exists_lex_text (hr : r.NamesIdentifiers) (e : Expr) (h : e.tree.Printable r) :
    ∃ tokens e', lex r e.text = .ok tokens ∧ ofTokens tokens = .ok e' ∧ e'.tree = e.tree.reread ∧
      e'.eval r = e.eval r := by
  obtain ⟨ks, hl, hd⟩ := exists_derives_text hr e h
  obtain ⟨tokens, hlex, rfl⟩ := lex_of_lexes hl
  obtain ⟨e', he, ht⟩ := ofTokens_of_derives hd.toSum
  have hreg : e.tree.Registered r := fun n hn => (h n hn).registered
  refine ⟨tokens, e', hlex, he, ht, eval_eq_of_value r (registered_of_lex hlex he) hreg ?_⟩
  rw [ht, Tree.value_reread e.tree h]

/-- A printed tree whose text is shorter than 2 ^ 30 bytes is read back by offsets and with checked counters. -/
theorem exists_lex?_text (hr : r.NamesIdentifiers) (e : Expr) (h : e.tree.Printable r)
    (hsize : e.text.utf8ByteSize < 2 ^ 30) : ∃ tokens e', lex? r e.text = some (.ok tokens) ∧
      ofTokens tokens = .ok e' ∧ e'.tree = e.tree.reread ∧ e'.eval r = e.eval r := by
  rw [lex?_eq r hsize]
  obtain ⟨tokens, e', hlex, hparse⟩ := exists_lex_text hr e h
  exact ⟨tokens, e', congrArg some hlex, hparse⟩

end Expr

end Reckon
