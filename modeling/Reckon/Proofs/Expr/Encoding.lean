import Reckon.Proofs.Expr.Listing
import Reckon.Proofs.Json
/-!
# The JSON of a tree determines it

The JSON of a tree shows all that there is to every node: its kind, what it is named or what value it has, where it
stands, and its children in their order by their own JSON. So the tree is read back from the value, and the value from
its text if the numbers in it are finite.
-/

namespace Reckon

/-! ## Parts of a tree -/

theorem Span.eq_of_json_eq {s s' : Span} (h : s.json = s'.json) : s = s' := by
  cases s
  cases s'
  simp_all [Span.json]

theorem Operator.eq_of_name_eq {op op' : Operator} (h : op.name = op'.name) : op = op' := by
  cases op <;> cases op' <;> first | rfl | exact absurd h (by decide)

/-- The value of the node, if it has one, is finite. -/
def Head.Finite : Head → Prop
  | .number v => Number.isFinite v = true
  | .constant _ v => Number.isFinite v = true
  | _ => True

instance : DecidablePred Head.Finite
  | .number v => inferInstanceAs (Decidable (Number.isFinite v = true))
  | .constant _ v => inferInstanceAs (Decidable (Number.isFinite v = true))
  | .negate => inferInstanceAs (Decidable True)
  | .binary _ => inferInstanceAs (Decidable True)
  | .call _ _ => inferInstanceAs (Decidable True)

namespace Json.Finite

variable {key key' : String} {v v' : Json}

theorem one (h : v.Finite) : (Json.object [(key, v)]).Finite :=
  .object (List.forall_mem_singleton.2 h)

theorem two (h : v.Finite) (h' : v'.Finite) : (Json.object [(key, v), (key', v')]).Finite :=
  .object (List.forall_mem_cons.2 ⟨h, List.forall_mem_singleton.2 h'⟩)

end Json.Finite

namespace Expr

variable {e e' : Expr}

/-! ## Trees as values -/

theorem length_jsons (es : List Expr) : (jsons es).length = es.length := by
  induction es with
  | nil => rfl
  | cons e es ih => rw [jsons, List.length_cons, List.length_cons, ih]

/-- The JSON of a node shows all of it, its children by their own JSON. -/
theorem eq_of_json_eq (h : e.json = e'.json) :
    e.head = e'.head ∧ e.span = e'.span ∧ jsons e.children = jsons e'.children := by
  cases e <;> cases e' <;>
    simp only [json, Json.ofConstant, Json.object.injEq, List.cons.injEq, Prod.mk.injEq, String.reduceEq, false_and,
      and_false, true_and, and_true, Json.float.injEq, Json.string.injEq, Json.array.injEq] at h
  case number.number v s v' s' =>
    obtain ⟨rfl, hspan⟩ := h
    exact ⟨rfl, Span.eq_of_json_eq hspan, rfl⟩
  case constant.constant name v s name' v' s' =>
    obtain ⟨⟨rfl, rfl⟩, hspan⟩ := h
    exact ⟨rfl, Span.eq_of_json_eq hspan, rfl⟩
  case negate.negate e s e' s' =>
    obtain ⟨hoperand, hspan⟩ := h
    exact ⟨rfl, Span.eq_of_json_eq hspan, congrArg (· :: []) hoperand⟩
  case binary.binary op l r s op' l' r' s' =>
    obtain ⟨⟨hop, hleft, hright⟩, hspan⟩ := h
    refine ⟨congrArg Head.binary (Operator.eq_of_name_eq hop), Span.eq_of_json_eq hspan, ?_⟩
    exact congrArg₂ (fun left right => [left, right]) hleft hright
  case call.call name args s name' args' s' =>
    obtain ⟨⟨rfl, hargs⟩, hspan⟩ := h
    have hlength := congrArg List.length hargs
    rw [length_jsons, length_jsons] at hlength
    exact ⟨congrArg (Head.call name) hlength, Span.eq_of_json_eq hspan, hargs⟩

/-- Trees with the same JSON are the same. -/
theorem eq_of_jsons_eq (es : List Expr) : ∀ {es' : List Expr}, jsons es = jsons es' → es = es' := by
  induction es using forest_induction with
  | nil =>
    intro es' h
    have hlength := length_jsons es'
    rw [← h] at hlength
    exact (List.length_eq_zero_iff.1 hlength.symm).symm
  | cons e es ihChildren ih =>
    intro es' h
    cases es' with
    | nil => cases h
    | cons e' es' =>
      obtain ⟨hjson, hrest⟩ := List.cons.inj h
      obtain ⟨hhead, hspan, hchildren⟩ := eq_of_json_eq hjson
      rw [eq_of_children_eq hhead hspan (ihChildren hchildren), ih hrest]

/-! ## Finite trees -/

/-- Every value in the tree is finite. -/
def Finite (e : Expr) : Prop := ∀ p ∈ e.preorder 0, p.2.head.Finite

instance : DecidablePred Finite := fun e => inferInstanceAs (Decidable (∀ p ∈ e.preorder 0, p.2.head.Finite))

theorem finite_json_of_children (h : e.head.Finite) (hchildren : ∀ v ∈ jsons e.children, v.Finite) : e.json.Finite := by
  have hspan : ∀ s : Span, s.json.Finite := fun s => .two (.nat _) (.nat _)
  cases e with
  | number v s => exact .two (.one (.float h)) (hspan s)
  | constant name v s => exact .two (.one (.two (.string _) (.float h))) (hspan s)
  | negate e s =>
    exact .two (.one (.two (.string _) (hchildren _ List.mem_cons_self))) (hspan s)
  | binary op l r s =>
    have hleft := hchildren l.json List.mem_cons_self
    have hright := hchildren r.json (List.mem_cons_of_mem _ List.mem_cons_self)
    refine .two (.one (.object ?_)) (hspan s)
    exact List.forall_mem_cons.2 ⟨.string _, List.forall_mem_cons.2 ⟨hleft, List.forall_mem_singleton.2 hright⟩⟩
  | call name args s => exact .two (.one (.two (.string _) (.array hchildren))) (hspan s)

theorem finite_jsons (es : List Expr) : ∀ d, (∀ p ∈ preorderAll d es, p.2.head.Finite) → ∀ v ∈ jsons es, v.Finite := by
  induction es using forest_induction with
  | nil =>
    intro d h v hv
    cases hv
  | cons e es ihChildren ih =>
    intro d h
    rw [preorderAll, preorder_eq, List.cons_append, List.forall_mem_cons, List.forall_mem_append] at h
    rw [jsons, List.forall_mem_cons]
    exact ⟨finite_json_of_children h.1 (ihChildren (d + 1) h.2.1), ih d h.2.2⟩

theorem Finite.json (h : e.Finite) : e.json.Finite := by
  refine finite_jsons [e] 0 (fun p hp => h p ?_) _ List.mem_cons_self
  simpa [preorderAll] using hp

/-- Two trees with finite values have the same JSON text only if they are the same. -/
theorem json_determines (h : e.Finite) (h' : e'.Finite) : e.json.text = e'.json.text ↔ e = e' := by
  refine ⟨fun he => ?_, fun he => he ▸ rfl⟩
  have hjson : jsons [e] = jsons [e'] := congrArg (· :: []) (h.json.eq_of_text_eq h'.json he)
  exact (List.cons.inj (eq_of_jsons_eq [e] hjson)).1

/-- Without the escapes in their names these two trees would have the same text. -/
theorem json_determines_quotes : ∃ e e' : Expr, e.Finite ∧ e'.Finite ∧ e.json.text ≠ e'.json.text := by
  let one := Number.ofLiteral ['1']
  let tree (left right : String) : Expr := binary .add (constant left one ⟨0, 1⟩) (constant right one ⟨0, 1⟩) ⟨0, 1⟩
  let between := "\",\"value\":1.0\x7d\x7d,\"span\":\x7b\"start\":0,\"end\":1\x7d\x7d,\"right\":" ++
    "\x7b\"kind\":\x7b\"Constant\":\x7b\"name\":\""
  let e := tree "p" ("q" ++ between ++ "r")
  let e' := tree ("p" ++ between ++ "q") "r"
  have h : e.Finite := by decide +kernel
  have h' : e'.Finite := by decide +kernel
  refine ⟨e, e', h, h', fun he => ?_⟩
  obtain ⟨-, hleft, -, -⟩ := Expr.binary.inj ((json_determines h h').1 he)
  exact absurd (Expr.constant.inj hleft).1 (by decide)

end Expr

end Reckon
