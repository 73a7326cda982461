import Mathlib.Data.List.Forall2
import Reckon.Proofs.Expr.Calls
/-!
# Which native code runs

The invocations of native code on the way do not show in the result of an evaluation. `evalIn` is evaluation with the
native code left open. With the code as it is this is `eval`; with code that keeps a record, the record shows which
calls have been made. `records_eval` goes along the tree: the calls are made in their order until one has no value,
and none after it.
-/

namespace Reckon

/-! ## Native code with effects -/

/-- A run of native code: the function that it belongs to, and the arguments that it is given. -/
structure Run where
  name : String
  args : List Float

namespace NativeFunction

/-- Native code as it is. -/
def invoke (f : NativeFunction) (args : List Float) : Except Halt Float := (f.native args).mapError .panic

/-- Native code that adds each of its runs to a record. -/
def invokeRecorded (f : NativeFunction) (args : List Float) : ExceptT Halt (StateM (List Run)) Float := do
  modify (· ++ [⟨f.name, args⟩])
  match f.native args with
  | .ok v => pure v
  | .error p => throw (.panic p)

end NativeFunction

namespace Expr

variable {r : Registry}

section
variable {m : Type → Type} [Monad m] [MonadExcept Halt m]

mutual

/-- Evaluation where `invoke` is what an invocation of native code comes to. -/
def evalIn (r : Registry) (invoke : NativeFunction → List Float → m Float) : Expr → m Float
  | number v _ => pure v
  | constant name v _ =>
    match r.constant? name with
    | some c => pure c.value
    | none => pure v
  | negate e _ => do
    let x ← evalIn r invoke e
    pure (-x)
  | binary op left right _ => do
    let x ← evalIn r invoke left
    let y ← evalIn r invoke right
    pure (op.apply x y)
  | call name args span => do
    let xs ← evalAllIn r invoke args
    match r.function? name with
    | none => throw (.error ⟨name, span⟩)
    | some f => invoke f (xs ++ f.defaults xs.length)

/-- The same for some trees. -/
def evalAllIn (r : Registry) (invoke : NativeFunction → List Float → m Float) : List Expr → m (List Float)
  | [] => pure []
  | e :: es => do
    let x ← evalIn r invoke e
    let xs ← evalAllIn r invoke es
    pure (x :: xs)

end

end

mutual

theorem evalIn_invoke : ∀ e : Expr, evalIn r NativeFunction.invoke e = eval r e
  | number v s => by
    rw [evalIn, eval]
    rfl
  | constant name v s => by
    rw [evalIn, eval]
    rfl
  | negate e s => by
    rw [evalIn, eval, evalIn_invoke e]
    cases eval r e <;> rfl
  | binary op left right s => by
    rw [evalIn, eval, evalIn_invoke left, evalIn_invoke right]
    cases eval r left with
    | error h => rfl
    | ok x => cases eval r right <;> rfl
  | call name args s => by
    rw [evalIn, eval, evalAllIn_invoke args]
    cases evalAll r args with
    | error h => rfl
    | ok xs =>
      unfold Registry.callValue NativeFunction.invoke NativeFunction.call
      cases r.function? name with
      | none => rfl
      | some f =>
        dsimp only [bind, Except.bind]
        cases f.native (xs ++ f.defaults xs.length) <;> rfl

theorem evalAllIn_invoke : ∀ es : List Expr, evalAllIn r NativeFunction.invoke es = evalAll r es
  | [] => by
    rw [evalAllIn, evalAll]
    rfl
  | e :: es => by
    rw [evalAllIn, evalAll, evalIn_invoke e, evalAllIn_invoke es]
    cases eval r e with
    | error h => rfl
    | ok x => cases evalAll r es <;> rfl

end

/-! ## The calls on the way -/

/-- The invocation that a call makes once its arguments have values. -/
inductive Invokes (r : Registry) : Expr → Run → Prop
  | intro {f args xs} (s) : MeansAll r args xs → f ∈ r.functions →
      Invokes r (call f.name args s) ⟨f.name, xs ++ f.defaults xs.length⟩

/-- The calls at which native code runs when `c` ends the evaluation: `c` itself unless its function is unknown. -/
def reached (c : Expr) : Halt → List Expr
  | .error _ => []
  | .panic _ => [c]

/-- What comes of making some calls in their order, and the invocations on the way. -/
def Course (r : Registry) {α : Type} (cs : List Expr) (is : List Run) : Except Halt α → Prop
  | .ok _ => (∀ c ∈ cs, ∃ v, Means r c v) ∧ List.Forall₂ (Invokes r) cs is
  | .error h => ∃ before c, FirstFailure r cs before c h ∧ List.Forall₂ (Invokes r) (before ++ reached c h) is

variable {α β : Type} {cs cs' : List Expr} {is is' : List Run}

theorem Course.nil {a : α} : Course r [] [] (.ok a) := ⟨nofun, .nil⟩

/-- Once a call has ended the evaluation, no later one is made. -/
theorem Course.stop {h : Halt} (hc : Course r cs is (.error h : Except Halt α)) :
    Course r (cs ++ cs') is (.error h : Except Halt β) := by
  obtain ⟨before, c, hf, hi⟩ := hc
  exact ⟨before, c, ⟨hf.isPrefix.trans (List.prefix_append cs cs'), hf.returned, hf.offends⟩, hi⟩

/-- Until then they are. -/
theorem Course.goOn {a : α} {o : Except Halt β} (hc : Course r cs is (.ok a)) (hc' : Course r cs' is' o) :
    Course r (cs ++ cs') (is ++ is') o := by
  obtain ⟨hv, hi⟩ := hc
  cases o with
  | ok b => exact ⟨List.forall_mem_append.2 ⟨hv, hc'.1⟩, List.rel_append hi hc'.2⟩
  | error h =>
    obtain ⟨before, c, hf, hi'⟩ := hc'
    refine ⟨cs ++ before, c, ⟨?_, List.forall_mem_append.2 ⟨hv, hf.returned⟩, hf.offends⟩, ?_⟩
    · rw [List.append_assoc]
      exact (List.prefix_append_right_inj cs).2 hf.isPrefix
    · rw [List.append_assoc]
      exact List.rel_append hi hi'

/-! ## Recorded evaluation -/

/-- What a recorded computation gives, and the record behind it, which is `log` before. -/
def record {α : Type} (x : ExceptT Halt (StateM (List Run)) α) (log : List Run) :
    Except Halt α × List Run := x.run.run log

theorem record_bind {α β : Type} (x : ExceptT Halt (StateM (List Run)) α)
    (f : α → ExceptT Halt (StateM (List Run)) β) (log : List Run) :
    record (x >>= f) log = match record x log with
      | (.ok a, log') => record (f a) log'
      | (.error h, log') => (.error h, log') := by
  show (ExceptT.bind x f).run.run log = _
  unfold record ExceptT.bind ExceptT.bindCont ExceptT.run ExceptT.mk
  rw [StateT.run_bind]
  rcases (StateT.run x log) with ⟨a | a, log'⟩ <;> rfl

@[simp] theorem record_pure {α : Type} (a : α) (log : List Run) : record (pure a) log = (.ok a, log) := rfl

@[simp] theorem record_throw {α : Type} (h : Halt) (log : List Run) :
    record (throw h : ExceptT Halt (StateM (List Run)) α) log = (.error h, log) := rfl

theorem record_invokeRecorded (f : NativeFunction) (args : List Float) (log : List Run) :
    record (f.invokeRecorded args) log = (f.invoke args, log ++ [⟨f.name, args⟩]) := by
  unfold NativeFunction.invokeRecorded NativeFunction.invoke
  cases f.native args <;> rfl

/-- The course that the evaluation of a tree takes. -/
def Records (r : Registry) {α : Type} (cs : List Expr) (x : ExceptT Halt (StateM (List Run)) α)
    (o : Except Halt α) : Prop :=
  ∀ log, ∃ is, record x log = (o, log ++ is) ∧ Course r cs is o

section Records
variable {x : ExceptT Halt (StateM (List Run)) α} {f : α → ExceptT Halt (StateM (List Run)) β}

theorem Records.pure (a : α) : Records r [] (Pure.pure a) (.ok a) :=
  fun log => ⟨[], by simp, .nil⟩

theorem Records.bind_ok {a : α} {o : Except Halt β} (h : Records r cs x (.ok a)) (h' : Records r cs' (f a) o) :
    Records r (cs ++ cs') (x >>= f) o := by
  intro log
  obtain ⟨is, hx, hc⟩ := h log
  obtain ⟨is', hf, hc'⟩ := h' (log ++ is)
  refine ⟨is ++ is', ?_, hc.goOn hc'⟩
  rw [record_bind, hx, ← List.append_assoc]
  exact hf

theorem Records.bind_error {h : Halt} (hx : Records r cs x (.error h)) (cs' : List Expr) :
    Records r (cs ++ cs') (x >>= f) (.error h) := by
  intro log
  obtain ⟨is, hx, hc⟩ := hx log
  refine ⟨is, ?_, hc.stop⟩
  rw [record_bind, hx]

end Records

/-- What a call does once its arguments have values. -/
theorem records_call {name : String} {args : List Expr} {xs : List Float} (s : Span) (h : MeansAll r args xs) :
    Records r [call name args s] (match r.function? name with
      | none => throw (.error ⟨name, s⟩)
      | some f => f.invokeRecorded (xs ++ f.defaults xs.length)) (r.callValue name s xs) := by
  intro log
  unfold Registry.callValue NativeFunction.call
  cases hf : r.function? name with
  | none =>
    exact ⟨[], by simp, [], _, ⟨List.prefix_rfl, nofun, .unknown s h (Registry.function?_eq_none_iff.1 hf)⟩, .nil⟩
  | some f =>
    obtain ⟨hmem, rfl⟩ := Registry.function?_eq_some_iff.1 hf
    refine ⟨[⟨f.name, xs ++ f.defaults xs.length⟩], ?_, ?_⟩
    · dsimp only
      rw [record_invokeRecorded]
      unfold NativeFunction.invoke
      cases f.native (xs ++ f.defaults xs.length) <;> rfl
    · dsimp only
      have hi : List.Forall₂ (Invokes r) [call f.name args s] [⟨f.name, xs ++ f.defaults xs.length⟩] :=
        .cons (.intro s h hmem) .nil
      cases hv : f.native (xs ++ f.defaults xs.length) with
      | ok v => exact ⟨List.forall_mem_singleton.2 ⟨v, .call s h hmem hv⟩, hi⟩
      | error p => exact ⟨[], _, ⟨List.prefix_rfl, nofun, .panic s h hmem hv⟩, hi⟩

mutual

theorem records_eval (r : Registry) : ∀ e : Expr, Records r e.calls (evalIn r NativeFunction.invokeRecorded e) (e.eval r)
  | number v s => by
    rw [evalIn, eval]
    exact .pure v
  | constant name v s => by
    rw [evalIn, eval]
    cases r.constant? name with
    | none => exact .pure v
    | some c => exact .pure c.value
  | negate e s => by
    have h := records_eval r e
    rw [evalIn, eval, calls, ← List.append_nil e.calls]
    cases he : e.eval r with
    | error g => exact (he ▸ h).bind_error []
    | ok x => exact (he ▸ h).bind_ok (.pure _)
  | binary op left right s => by
    have hl := records_eval r left
    have hr := records_eval r right
    rw [evalIn, eval, calls]
    cases he : left.eval r with
    | error g => exact (he ▸ hl).bind_error _
    | ok x =>
      refine (he ▸ hl).bind_ok ?_
      rw [← List.append_nil right.calls]
      cases he' : right.eval r with
      | error g => exact (he' ▸ hr).bind_error []
      | ok y => exact (he' ▸ hr).bind_ok (.pure _)
  | call name args s => by
    have h := records_evalAll r args
    rw [evalIn, eval, calls]
    cases he : evalAll r args with
    | error g => exact (he ▸ h).bind_error _
    | ok xs => exact (he ▸ h).bind_ok (records_call s (meansAll_of_evalAll he))

theorem records_evalAll (r : Registry) : ∀ es : List Expr,
    Records r (callsAll es) (evalAllIn r NativeFunction.invokeRecorded es) (evalAll r es)
  | [] => by
    rw [evalAllIn, evalAll]
    exact .pure []
  | e :: es => by
    have h := records_eval r e
    have hs := records_evalAll r es
    rw [evalAllIn, evalAll, callsAll]
    cases he : e.eval r with
    | error g => exact (he ▸ h).bind_error _
    | ok x =>
      refine (he ▸ h).bind_ok ?_
      rw [← List.append_nil (callsAll es)]
      cases he' : evalAll r es with
      | error g => exact (he' ▸ hs).bind_error []
      | ok xs => exact (he' ▸ hs).bind_ok (.pure _)

end

/-- Evaluation with a record of the runs of native code. -/
def recorded (r : Registry) (e : Expr) : Except Halt Float × List Run :=
  record (evalIn r NativeFunction.invokeRecorded e) []

theorem course_recorded (r : Registry) (e : Expr) :
    (e.recorded r).1 = e.eval r ∧ Course r e.calls (e.recorded r).2 (e.eval r) := by
  obtain ⟨is, hrec, hc⟩ := records_eval r e []
  rw [List.nil_append] at hrec
  have hrecorded : e.recorded r = (e.eval r, is) := hrec
  rw [hrecorded]
  exact ⟨rfl, hc⟩

/-! ## The first failure -/

theorem exists_firstFailure {e : Expr} {h : Halt} (he : e.eval r = .error h) :
    ∃ before c, FirstFailure r e.calls before c h := by
  have hc := (course_recorded r e).2
  rw [he] at hc
  obtain ⟨before, c, hf, -⟩ := hc
  exact ⟨before, c, hf⟩

theorem FirstFailure.eval_eq {e c : Expr} {before : List Expr} {h : Halt} (hf : FirstFailure r e.calls before c h) :
    e.eval r = .error h := by
  cases he : e.eval r with
  | ok v =>
    have hc := (course_recorded r e).2
    rw [he] at hc
    exact absurd hc.1 hf.not_means
  | error h' =>
    obtain ⟨before', c', hf'⟩ := exists_firstFailure he
    obtain ⟨-, -, rfl⟩ := hf.unique hf'
    rfl

theorem eval_eq_ok_iff {e : Expr} {v : Float} : e.eval r = .ok v ↔ Means r e v := ⟨means_of_eval, Means.eval_eq⟩

theorem eval_eq_error_iff {e : Expr} {h : Halt} : e.eval r = .error h ↔ ∃ before c, FirstFailure r e.calls before c h :=
  ⟨exists_firstFailure, fun ⟨_, _, hf⟩ => hf.eval_eq⟩

/-- Where every function is known and none panics, there is a value. -/
theorem exists_eval {e : Expr} (hnames : ∀ name args s, call name args s ∈ e.calls → ∃ f ∈ r.functions, f.name = name)
    (hpanics : ∀ c ∈ e.calls, ∀ p, ¬Offends r c (.panic p)) : ∃ v, e.eval r = .ok v := by
  cases he : e.eval r with
  | ok v => exact ⟨v, rfl⟩
  | error h =>
    obtain ⟨before, c, hf⟩ := exists_firstFailure he
    have hmem : c ∈ e.calls := hf.isPrefix.subset (List.mem_append_right _ List.mem_cons_self)
    cases hf.offends with
    | unknown s _ hunknown =>
      obtain ⟨f, hmemf, hname⟩ := hnames _ _ _ hmem
      exact absurd hname (hunknown f hmemf)
    | panic s hargs hmemf hp => exact absurd (.panic s hargs hmemf hp) (hpanics _ hmem _)

/-- Evaluation gives the value that a tree has by its structure. If it has none, evaluation gives the reason why the
first call without a value has none. The record shows that native code has run for the calls up to there, in their
order, and for no other. -/
theorem eval_first_failure (r : Registry) (e : Expr) :
    (∀ v, e.eval r = .ok v ↔ Means r e v) ∧
    (∀ h, e.eval r = .error h ↔ ∃ before c, FirstFailure r e.calls before c h) ∧
    ((∀ name args s, call name args s ∈ e.calls → ∃ f ∈ r.functions, f.name = name) →
      (∀ c ∈ e.calls, ∀ p, ¬Offends r c (.panic p)) → ∃ v, e.eval r = .ok v) ∧
    evalIn r NativeFunction.invoke e = e.eval r ∧ (e.recorded r).1 = e.eval r ∧
    (∀ v, e.eval r = .ok v → List.Forall₂ (Invokes r) e.calls (e.recorded r).2) ∧
    (∀ before c h, FirstFailure r e.calls before c h →
      List.Forall₂ (Invokes r) (before ++ reached c h) (e.recorded r).2) := by
  obtain ⟨hrec, hc⟩ := course_recorded r e
  refine ⟨fun v => eval_eq_ok_iff, fun h => eval_eq_error_iff, exists_eval, evalIn_invoke e, hrec, fun v he => ?_,
    fun before c h hf => ?_⟩
  · rw [he] at hc
    exact hc.2
  · rw [hf.eval_eq] at hc
    obtain ⟨before', c', hf', hi⟩ := hc
    obtain ⟨rfl, rfl, -⟩ := hf.unique hf'
    exact hi

/-- An unknown function among the arguments is found before the call around it panics. -/
example : (call "boom" [call "missing" [] ⟨5, 14⟩] ⟨0, 15⟩).eval ⟨[⟨"boom", [], fun _ => .error .silent⟩], [], by decide⟩ =
    .error (.error ⟨"missing", ⟨5, 14⟩⟩) := rfl

end Expr

end Reckon
