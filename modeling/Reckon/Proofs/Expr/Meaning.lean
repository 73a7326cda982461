import Reckon.Expr.Value
import Reckon.Proofs.Expr.Nodes
/-!
# Values of trees

The spans of an expression show in its evaluation only when a function is not registered, as part of the error. Without
them the value is a function of the tree, and `stop_eval` says that evaluation computes it.
-/

namespace Reckon

/-- Why a computation ends without a value, its place left out. -/
inductive Stop where
  | unknown (name : String)
  | panic (p : Panic)

/-- The reason without its place. -/
def Halt.stop : Halt → Stop
  | .error e => .unknown e.name
  | .panic p => .panic p

/-- The place of an unknown function is all that is lost. -/
theorem Halt.eq_of_stop {x x' : Except Halt Float} (h : ∀ err, x ≠ .error (.error err))
    (h' : ∀ err, x' ≠ .error (.error err)) (hs : x.mapError stop = x'.mapError stop) : x = x' := by
  rcases x with (err | p) | v
  · exact absurd rfl (h err)
  · rcases x' with (err | p') | v'
    · exact absurd rfl (h' err)
    · cases hs
      rfl
    · cases hs
  · rcases x' with (err | p') | v'
    · exact absurd rfl (h' err)
    · cases hs
    · cases hs
      rfl

/-- What a call of the named function gives. -/
def Registry.callTree (r : Registry) (name : String) (args : List Float) : Except Stop Float :=
  match r.function? name with
  | none => .error (.unknown name)
  | some f =>
    match f.call args with
    | .ok v => .ok v
    | .error p => .error (.panic p)

theorem Registry.stop_callValue (r : Registry) (name : String) (span : Span) (args : List Float) :
    (r.callValue name span args).mapError Halt.stop = r.callTree name args := by
  unfold callValue callTree
  cases r.function? name with
  | none => rfl
  | some f =>
    cases hf : f.call args <;> simp only [hf]
    · rfl
    · rfl

namespace Tree

mutual

/-- The value of a tree. -/
def value (r : Registry) : Tree → Except Stop Float
  | number v => .ok v
  | constant name v =>
    match r.constant? name with
    | some c => .ok c.value
    | none => .ok v
  | negate t =>
    match value r t with
    | .ok x => .ok (-x)
    | .error s => .error s
  | binary op left right =>
    match value r left with
    | .error s => .error s
    | .ok x =>
      match value r right with
      | .error s => .error s
      | .ok y => .ok (op.apply x y)
  | call name args =>
    match values r args with
    | .error s => .error s
    | .ok xs => r.callTree name xs

/-- The values of some trees. -/
def values (r : Registry) : List Tree → Except Stop (List Float)
  | [] => .ok []
  | t :: ts =>
    match value r t with
    | .error s => .error s
    | .ok x =>
      match values r ts with
      | .error s => .error s
      | .ok xs => .ok (x :: xs)

end

variable {r : Registry} {v : Float}

theorem value_binary_eq_ok {op : Operator} {left right : Tree} :
    (binary op left right).value r = .ok v ↔ ∃ x y, left.value r = .ok x ∧ right.value r = .ok y ∧ op.apply x y = v := by
  rw [value]
  cases left.value r with
  | error s => simp
  | ok x => cases right.value r <;> simp

theorem value_call_eq_ok {name : String} {args : List Tree} :
    (call name args).value r = .ok v ↔
      ∃ xs f, values r args = .ok xs ∧ r.function? name = some f ∧ f.call xs = .ok v := by
  rw [value]
  cases values r args with
  | error s => simp
  | ok xs =>
    unfold Registry.callTree
    cases r.function? name with
    | none => simp
    | some f => cases hf : f.call xs <;> simp [hf]

theorem values_singleton_eq_ok {t : Tree} {xs : List Float} :
    values r [t] = .ok xs ↔ ∃ x, t.value r = .ok x ∧ xs = [x] := by
  rw [values, values]
  cases t.value r with
  | error s => simp
  | ok x => simp [eq_comm]

/-! ## Registered trees -/

mutual

/-- No function of a registered tree is unknown. -/
theorem value_ne_unknown (name : String) : ∀ t : Tree, t.Registered r → t.value r ≠ .error (.unknown name)
  | number _, _ => by simp [value]
  | constant _ _, _ => by
    rw [value]
    split <;> simp
  | negate t, h => by
    have ht := value_ne_unknown name t (List.forall_mem_cons.1 h).2
    rw [value]
    split <;> simp_all
  | binary op left right, h => by
    unfold Registered nodes at h
    rw [List.forall_mem_append, List.forall_mem_cons] at h
    have hl := value_ne_unknown name left h.1
    have hr := value_ne_unknown name right h.2.2
    rw [value]
    split
    · simp_all
    · split <;> simp_all
  | call f args, h => by
    unfold Registered nodes at h
    rw [List.forall_mem_cons] at h
    obtain ⟨⟨g, hg, hname⟩, hargs⟩ := h
    have hne := values_ne_unknown name args hargs
    rw [value]
    split
    · simp_all
    · unfold Registry.callTree
      rw [Registry.function?_eq_some_iff.2 ⟨hg, hname⟩]
      dsimp only
      split <;> simp

theorem values_ne_unknown (name : String) : ∀ ts : List Tree, (∀ n ∈ nodesAll ts, n.Registered r) →
    values r ts ≠ .error (.unknown name)
  | [], _ => by simp [values]
  | t :: ts, h => by
    rw [nodesAll, List.forall_mem_append] at h
    have ht := value_ne_unknown name t h.1
    have hts := values_ne_unknown name ts h.2
    rw [values]
    split
    · simp_all
    · split <;> simp_all

end

end Tree

namespace Expr

variable (r : Registry)

mutual

/-- Evaluation computes the value of the tree. -/
theorem stop_eval : ∀ e : Expr, (e.eval r).mapError Halt.stop = e.tree.value r
  | number v _ => rfl
  | constant name v _ => by
    rw [eval, tree, Tree.value]
    cases r.constant? name <;> rfl
  | negate e _ => by
    rw [eval, tree, Tree.value, ← stop_eval e]
    cases e.eval r <;> rfl
  | binary op left right _ => by
    rw [eval, tree, Tree.value, ← stop_eval left, ← stop_eval right]
    cases left.eval r with
    | error h => rfl
    | ok x => cases right.eval r <;> rfl
  | call name args span => by
    rw [eval, tree, Tree.value, ← stop_evalAll args]
    cases evalAll r args with
    | error h => rfl
    | ok xs => exact r.stop_callValue name span xs

theorem stop_evalAll : ∀ es : List Expr, (evalAll r es).mapError Halt.stop = Tree.values r (trees es)
  | [] => rfl
  | e :: es => by
    rw [evalAll, trees, Tree.values, ← stop_eval e, ← stop_evalAll es]
    cases e.eval r with
    | error h => rfl
    | ok x => cases evalAll r es <;> rfl

end

theorem eval_ne_error {e : Expr} (h : e.tree.Registered r) (err : EvalError) : e.eval r ≠ .error (.error err) := by
  intro he
  have hs := stop_eval r e
  rw [he] at hs
  exact Tree.value_ne_unknown _ e.tree h hs.symm

/-- Registered trees of one value evaluate alike, failures included. -/
theorem eval_eq_of_value {e e' : Expr} (h : e.tree.Registered r) (h' : e'.tree.Registered r)
    (hv : e.tree.value r = e'.tree.value r) : e.eval r = e'.eval r := by
  rw [← stop_eval, ← stop_eval] at hv
  exact Halt.eq_of_stop (eval_ne_error r h) (eval_ne_error r h') hv

theorem eval_of_value {e : Expr} {v : Float} (h : e.tree.value r = .ok v) : e.eval r = .ok v := by
  rw [← stop_eval] at h
  cases he : e.eval r with
  | error halt =>
    rw [he] at h
    cases h
  | ok x =>
    rw [he] at h
    cases h
    rfl

theorem value_of_eval {e : Expr} {v : Float} (h : e.eval r = .ok v) : e.tree.value r = .ok v := by
  rw [← stop_eval, h]
  rfl

end Expr

end Reckon
