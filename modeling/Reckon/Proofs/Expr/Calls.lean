import Reckon.Expr.Value
import Reckon.Proofs.Registry.Lookup
/-!
# The calls of a tree

`Means` says which value a tree has by its structure alone, and evaluation finds just that. Where there is none, some
call is to blame. The calls of a tree come in an order, left operands before right ones and arguments before the call
they belong to, and there is at most one first call in this order that has no value.
-/

namespace Reckon

theorem Registry.callValue_eq_ok {r : Registry} {name : String} {s : Span} {xs : List Float} {v : Float} :
    r.callValue name s xs = .ok v ↔
      ∃ f, r.function? name = some f ∧ f.native (xs ++ f.defaults xs.length) = .ok v := by
  unfold callValue NativeFunction.call
  cases r.function? name with
  | none => simp
  | some f => cases hf : f.native (xs ++ f.defaults xs.length) <;> simp [hf]

namespace Expr

/-! ## Values by structure -/

mutual

/-- The value that a tree has by its structure. -/
inductive Means (r : Registry) : Expr → Float → Prop
  | number (v s) : Means r (number v s) v
  | registered {c} (v s) : c ∈ r.constants → Means r (constant c.name v s) c.value
  | captured {name} (v s) : (∀ c ∈ r.constants, c.name ≠ name) → Means r (constant name v s) v
  | negate {e x} (s) : Means r e x → Means r (negate e s) (-x)
  | binary {left right x y} (op s) : Means r left x → Means r right y → Means r (binary op left right s) (op.apply x y)
  | call {f args xs v} (s) : MeansAll r args xs → f ∈ r.functions → f.native (xs ++ f.defaults xs.length) = .ok v →
      Means r (call f.name args s) v

/-- The values that some trees have by their structure. -/
inductive MeansAll (r : Registry) : List Expr → List Float → Prop
  | nil : MeansAll r [] []
  | cons {e es x xs} : Means r e x → MeansAll r es xs → MeansAll r (e :: es) (x :: xs)

end

/-- The call has no value although its arguments have. -/
inductive Offends (r : Registry) : Expr → Halt → Prop
  | unknown {name args xs} (s) : MeansAll r args xs → (∀ f ∈ r.functions, f.name ≠ name) →
      Offends r (call name args s) (.error ⟨name, s⟩)
  | panic {f args xs p} (s) : MeansAll r args xs → f ∈ r.functions → f.native (xs ++ f.defaults xs.length) = .error p →
      Offends r (call f.name args s) (.panic p)

variable {r : Registry}

mutual

theorem Means.eval_eq : ∀ {e : Expr} {v : Float}, Means r e v → e.eval r = .ok v
  | _, _, .number v s => by rw [eval]
  | _, _, .registered v s hc => by
    rw [eval, Registry.constant?_eq_some_iff.2 ⟨hc, rfl⟩]
  | _, _, .captured v s hc => by
    rw [eval, Registry.constant?_eq_none_iff.2 hc]
  | _, _, .negate s h => by
    rw [eval, h.eval_eq]
  | _, _, .binary op s hl hr => by
    rw [eval, hl.eval_eq, hr.eval_eq]
  | _, _, .call s h hf hv => by
    rw [eval, h.evalAll_eq]
    simp only [Registry.callValue, Registry.function?_eq_some_iff.2 ⟨hf, rfl⟩, NativeFunction.call, hv]

theorem MeansAll.evalAll_eq : ∀ {es : List Expr} {xs : List Float}, MeansAll r es xs → evalAll r es = .ok xs
  | _, _, .nil => by rw [evalAll]
  | _, _, .cons h hs => by rw [evalAll, h.eval_eq, hs.evalAll_eq]

end

mutual

theorem means_of_eval : ∀ {e : Expr} {v : Float}, e.eval r = .ok v → Means r e v
  | number v s, w, h => by
    rw [eval] at h
    cases h
    exact .number v s
  | constant name v s, w, h => by
    rw [eval] at h
    split at h
    · next c hc =>
      cases h
      obtain ⟨hmem, rfl⟩ := Registry.constant?_eq_some_iff.1 hc
      exact .registered v s hmem
    · next hc =>
      cases h
      exact .captured v s (Registry.constant?_eq_none_iff.1 hc)
  | negate e s, w, h => by
    rw [eval] at h
    split at h
    · next x hx =>
      cases h
      exact .negate s (means_of_eval hx)
    · cases h
  | binary op left right s, w, h => by
    rw [eval] at h
    split at h
    · cases h
    · next x hx =>
      split at h
      · cases h
      · next y hy =>
        cases h
        exact .binary op s (means_of_eval hx) (means_of_eval hy)
  | call name args s, w, h => by
    rw [eval] at h
    split at h
    · cases h
    · next xs hxs =>
      obtain ⟨f, hf, hv⟩ := Registry.callValue_eq_ok.1 h
      obtain ⟨hmem, rfl⟩ := Registry.function?_eq_some_iff.1 hf
      exact .call s (meansAll_of_evalAll hxs) hmem hv

theorem meansAll_of_evalAll : ∀ {es : List Expr} {xs : List Float}, evalAll r es = .ok xs → MeansAll r es xs
  | [], xs, h => by
    rw [evalAll] at h
    cases h
    exact .nil
  | e :: es, xs, h => by
    rw [evalAll] at h
    split at h
    · cases h
    · next x hx =>
      split at h
      · cases h
      · next ys hys =>
        cases h
        exact .cons (means_of_eval hx) (meansAll_of_evalAll hys)

end

theorem Offends.eval_eq {c : Expr} {h : Halt} (ho : Offends r c h) : c.eval r = .error h := by
  cases ho with
  | unknown s hargs hf =>
    rw [eval, hargs.evalAll_eq]
    simp only [Registry.callValue, Registry.function?_eq_none_iff.2 hf]
  | panic s hargs hf hp =>
    rw [eval, hargs.evalAll_eq]
    simp only [Registry.callValue, Registry.function?_eq_some_iff.2 ⟨hf, rfl⟩, NativeFunction.call, hp]

/-! ## The order of the calls -/

mutual

/-- The calls of a tree, arguments before the call they belong to. -/
def calls : Expr → List Expr
  | number _ _ => []
  | constant _ _ _ => []
  | negate e _ => calls e
  | binary _ left right _ => calls left ++ calls right
  | call name args s => callsAll args ++ [call name args s]

/-- The calls of some trees. -/
def callsAll : List Expr → List Expr
  | [] => []
  | e :: es => calls e ++ callsAll es

end

/-- The call `c` is the first without a value, for the reason `h`, and `before` are the calls before it. -/
structure FirstFailure (r : Registry) (cs before : List Expr) (c : Expr) (h : Halt) : Prop where
  isPrefix : before ++ [c] <+: cs
  returned : ∀ b ∈ before, ∃ v, Means r b v
  offends : Offends r c h

variable {cs : List Expr}

theorem FirstFailure.not_means {before : List Expr} {c : Expr} {h : Halt} (hf : FirstFailure r cs before c h) :
    ¬∀ b ∈ cs, ∃ v, Means r b v := by
  intro hall
  obtain ⟨v, hv⟩ := hall c (hf.isPrefix.subset (List.mem_append_right _ List.mem_cons_self))
  have heval := hv.eval_eq
  rw [hf.offends.eval_eq] at heval
  cases heval

/-- Of two first failures neither comes before the other. -/
theorem FirstFailure.length_le {before before' : List Expr} {c c' : Expr} {h h' : Halt}
    (hf : FirstFailure r cs before c h) (hf' : FirstFailure r cs before' c' h') : before'.length ≤ before.length := by
  refine Nat.not_lt.1 fun hlt => ?_
  have hbefore : before ++ [c] <+: before' := by
    refine List.prefix_of_prefix_length_le hf.isPrefix ((List.prefix_append _ _).trans hf'.isPrefix) ?_
    rw [List.length_append, List.length_singleton]
    omega
  exact FirstFailure.not_means ⟨hbefore, hf.returned, hf.offends⟩ hf'.returned

theorem FirstFailure.unique {before before' : List Expr} {c c' : Expr} {h h' : Halt}
    (hf : FirstFailure r cs before c h) (hf' : FirstFailure r cs before' c' h') :
    before = before' ∧ c = c' ∧ h = h' := by
  have hlen := Nat.le_antisymm (hf'.length_le hf) (hf.length_le hf')
  have heq : before ++ [c] = before' ++ [c'] :=
    (List.prefix_of_prefix_length_le hf.isPrefix hf'.isPrefix (by simp [hlen])).eq_of_length (by simp [hlen])
  obtain ⟨rfl, hc⟩ := List.append_inj heq hlen
  obtain rfl : c = c' := List.singleton_inj.1 hc
  have hh := hf.offends.eval_eq
  rw [hf'.offends.eval_eq] at hh
  exact ⟨rfl, rfl, (Except.error.inj hh).symm⟩

end Expr

end Reckon
