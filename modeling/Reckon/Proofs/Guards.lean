import Reckon.Proofs.Evaluation
import Reckon.Proofs.Expr.Meaning
import Reckon.Proofs.Expr.Recording
import Reckon.Proofs.Token.Overflow
/-!
# Guarded stages

Each stage of an evaluation has a guard around it that catches a panic and makes it a fault of that stage. `guarded` is
the evaluation with its three guards, where the lexer finds everything by offsets and panics when one of them is wrong.
The parser takes tokens from the front of a list and has nothing to panic at. `guarded_eq` leaves one guard that ever
catches something, the one around the evaluation of the tree, and what it catches is the panic of a native function that
has run. For sources of any size `guardedIn` is the same with the counters of either build, of which the checked ones
may run over in the lexer.
-/

namespace Reckon

/-! ## Runs that panic -/

/-- The run is one of native code that panics. -/
def Run.Panics (r : Registry) (i : Run) (p : Panic) : Prop :=
  ∃ f ∈ r.functions, f.name = i.name ∧ f.native i.args = .error p

/-- No standard function panics. -/
theorem Registry.exists_native_standard {f : NativeFunction} (hf : f ∈ Registry.standard.functions) (args : List Float) :
    ∃ v, f.native args = .ok v := by
  simp only [standard, standardFunctions, List.mem_cons, List.not_mem_nil, or_false] at hf
  rcases hf with rfl | rfl | rfl | rfl | rfl | rfl | rfl | rfl | rfl | rfl | rfl | rfl | rfl <;>
    exact ⟨_, rfl⟩

namespace Expr

variable {r : Registry} {p : Panic}

/-- A call panics when the run that it makes does. -/
theorem Invokes.panics_iff {c : Expr} {i : Run} (h : Invokes r c i) : i.Panics r p ↔ c.eval r = .error (.panic p) := by
  cases h with
  | @intro f args xs s hargs hf =>
    have hfun : r.function? f.name = some f := Registry.function?_eq_some_iff.2 ⟨hf, rfl⟩
    have heval : (call f.name args s).eval r = r.callValue f.name s xs := by
      rw [eval, hargs.evalAll_eq]
    rw [heval, Registry.callValue, hfun]
    dsimp only [NativeFunction.call]
    constructor
    · rintro ⟨g, hg, hname, hp⟩
      have hsome : r.function? f.name = some g := Registry.function?_eq_some_iff.2 ⟨hg, hname⟩
      rw [hfun] at hsome
      cases hsome
      rw [hp]
    · intro h
      refine ⟨f, hf, rfl, ?_⟩
      cases hv : f.native (xs ++ f.defaults xs.length) with
      | ok v =>
        rw [hv] at h
        cases h
      | error q =>
        rw [hv] at h
        cases h
        rfl

theorem exists_call_of_mem {cs : List Expr} {is : List Run} (h : List.Forall₂ (Invokes r) cs is) {i : Run}
    (hi : i ∈ is) : ∃ c ∈ cs, Invokes r c i := by
  induction h with
  | nil => cases hi
  | cons hc _ ih =>
    rcases List.mem_cons.1 hi with rfl | hi
    · exact ⟨_, List.mem_cons_self, hc⟩
    · obtain ⟨c, hmem, hc⟩ := ih hi
      exact ⟨c, List.mem_cons_of_mem _ hmem, hc⟩

theorem exists_run_of_mem {cs : List Expr} {is : List Run} (h : List.Forall₂ (Invokes r) cs is) {c : Expr}
    (hc : c ∈ cs) : ∃ i ∈ is, Invokes r c i := by
  induction h with
  | nil => cases hc
  | cons hi _ ih =>
    rcases List.mem_cons.1 hc with rfl | hc
    · exact ⟨_, List.mem_cons_self, hi⟩
    · obtain ⟨i, hmem, hi⟩ := ih hc
      exact ⟨i, List.mem_cons_of_mem _ hmem, hi⟩

/-- The evaluation of a tree ends with a panic just when some native code that runs on the way does. -/
theorem eval_eq_panic_iff {e : Expr} : e.eval r = .error (.panic p) ↔ ∃ i ∈ (e.recorded r).2, i.Panics r p := by
  have hc := (course_recorded r e).2
  constructor
  · intro he
    rw [he] at hc
    obtain ⟨before, c, hf, hall⟩ := hc
    obtain ⟨i, hi, hinv⟩ := exists_run_of_mem hall (c := c) (List.mem_append_right _ List.mem_cons_self)
    exact ⟨i, hi, hinv.panics_iff.2 hf.offends.eval_eq⟩
  · rintro ⟨i, hi, hp⟩
    cases he : e.eval r with
    | ok v =>
      rw [he] at hc
      obtain ⟨c, hmem, hinv⟩ := exists_call_of_mem hc.2 hi
      obtain ⟨w, hw⟩ := hc.1 c hmem
      have hpanic := hinv.panics_iff.1 hp
      rw [hw.eval_eq] at hpanic
      cases hpanic
    | error h =>
      rw [he] at hc
      obtain ⟨before, c, hf, hall⟩ := hc
      obtain ⟨c', hmem, hinv⟩ := exists_call_of_mem hall hi
      have hpanic := hinv.panics_iff.1 hp
      rcases List.mem_append.1 hmem with hbefore | hlast
      · obtain ⟨w, hw⟩ := hf.returned c' hbefore
        rw [hw.eval_eq] at hpanic
        cases hpanic
      · -- Native code has run for the last call only if that call has panicked.
        cases h with
        | error e => cases hlast
        | panic q =>
          cases List.mem_singleton.1 hlast
          rw [hf.offends.eval_eq] at hpanic
          exact hpanic

end Expr

namespace Evaluation

/-! ## Guards -/

/-- What a stage under a guard comes to: a result, or else the error to report and its cause. -/
def settle {ε α : Type} (stage : String) (wrap : ε → Failure) : Except Panic (Except ε α) → Except (Failure × Failure) α
  | .ok (.ok a) => .ok a
  | .ok (.error e) => .error (wrap e, wrap e)
  | .error p => .error (.fault ⟨p, stage⟩, .panic p.message)

/-- A failure of a stage. -/
def ofBreak (expression : String) (tokens : Option (List Token)) (tree : Option Expr) (broken : Failure × Failure) :
    Evaluation :=
  failure expression tokens tree broken.1 [broken.2]

/-- A computation that may go wrong, and panics with `p` then. -/
def orPanic {α : Type} (p : Panic) : Option α → Except Panic α
  | some a => .ok a
  | none => .error p

/-- The evaluation of a tree as its guard sees it. -/
def tried : Except Halt Float → Except Panic (Except EvalError Float)
  | .ok v => .ok (.ok v)
  | .error (.error e) => .ok (.error e)
  | .error (.panic p) => .error p

/-- Evaluates an expression with a guard around each stage. A wrong offset in the lexer is the panic `p`. -/
def guarded (p : Panic) (r : Registry) (expression : String) : Evaluation :=
  match settle "lex" .lex (orPanic p (Token.lex? r expression)) with
  | .error broken => ofBreak expression none none broken
  | .ok tokens =>
    match settle "parse" .parse (.ok (Expr.ofTokens tokens)) with
    | .error broken => ofBreak expression (some tokens) none broken
    | .ok tree =>
      match settle "eval" .eval (tried (tree.eval r)) with
      | .error broken => ofBreak expression (some tokens) (some tree) broken
      | .ok value => success expression tokens tree value

variable {r : Registry} {source : String}

/-- Only the last guard is needed. -/
theorem guarded_eq (p : Panic) (hsize : source.utf8ByteSize < 2 ^ 30) : guarded p r source = run r source := by
  unfold guarded run
  rw [Token.lex?_eq r hsize]
  cases Token.lex r source with
  | error e => rfl
  | ok tokens =>
    dsimp only [orPanic, settle]
    cases Expr.ofTokens tokens with
    | error e => rfl
    | ok tree =>
      dsimp only
      cases tree.eval r with
      | ok v => rfl
      | error h => cases h <;> rfl

/-! ## What the stages settle -/

theorem run_of_lex {e : LexError} (h : Token.lex r source = .error e) :
    run r source = failure source none none (.lex e) [.lex e] := by
  unfold run
  rw [h]
  rfl

section
variable {tokens : List Token} (hl : Token.lex r source = .ok tokens)
include hl

theorem run_of_parse {e : ParseError} (h : Expr.ofTokens tokens = .error e) :
    run r source = failure source (some tokens) none (.parse e) [.parse e] := by
  unfold run
  simp only [hl, h]
  rfl

variable {tree : Expr} (he : Expr.ofTokens tokens = .ok tree)
include he

theorem run_of_value {v : Float} (h : tree.eval r = .ok v) : run r source = success source tokens tree v := by
  unfold run
  simp only [hl, he, h]

theorem run_of_panic {p : Panic} (h : tree.eval r = .error (.panic p)) :
    run r source = failure source (some tokens) (some tree) (.fault ⟨p, "eval"⟩) [.panic p.message] := by
  unfold run
  simp only [hl, he, h]
  rfl

/-- A tree that is read from a source has a value unless native code panics. -/
theorem value_or_panic : (∃ v, tree.eval r = .ok v) ∨ ∃ p, tree.eval r = .error (.panic p) := by
  cases h : tree.eval r with
  | ok v => exact .inl ⟨v, rfl⟩
  | error halt =>
    cases halt with
    | error e => exact absurd h (Expr.eval_ne_error r (Token.registered_of_lex hl he) e)
    | panic p => exact .inr ⟨p, rfl⟩

end

/-- An error of a failure, and the causes that belong to it. -/
inductive Reported : Failure → List Failure → Prop
  | lex (e) : Reported (.lex e) [.lex e]
  | parse (e) : Reported (.parse e) [.parse e]
  | fault {f : Fault} : ("stage", "eval") ∈ f.properties → Reported (.fault f) [.panic f.message]

theorem reported_of_run {expression : String} {tokens : Option (List Token)} {tree : Option Expr} {error : Failure}
    {causes : List Failure} (h : run r source = failure expression tokens tree error causes) : Reported error causes := by
  cases hl : Token.lex r source with
  | error e =>
    rw [run_of_lex hl] at h
    cases h
    exact .lex e
  | ok ts =>
    cases he : Expr.ofTokens ts with
    | error e =>
      rw [run_of_parse hl he] at h
      cases h
      exact .parse e
    | ok t =>
      rcases value_or_panic hl he with ⟨v, hv⟩ | ⟨p, hp⟩
      · rw [run_of_value hl he hv] at h
        cases h
      · rw [run_of_panic hl he hp] at h
        cases h
        exact .fault (List.mem_cons_of_mem _ List.mem_cons_self)

/-- What comes of an evaluation is what its first failing stage says. -/
structure Settled (r : Registry) (source : String) (outcome : Evaluation) : Prop where
  lex : ∀ e, Token.lex r source = .error e → outcome = failure source none none (.lex e) [.lex e]
  parse : ∀ tokens e, Token.lex r source = .ok tokens → Expr.ofTokens tokens = .error e →
    outcome = failure source (some tokens) none (.parse e) [.parse e]
  value : ∀ tokens tree v, Token.lex r source = .ok tokens → Expr.ofTokens tokens = .ok tree →
    (outcome = success source tokens tree v ↔ tree.eval r = .ok v)
  panic : ∀ tokens tree p, Token.lex r source = .ok tokens → Expr.ofTokens tokens = .ok tree →
    (outcome = failure source (some tokens) (some tree) (.fault ⟨p, "eval"⟩) [.panic p.message] ↔
      ∃ i ∈ (tree.recorded r).2, i.Panics r p)
  /-- Beyond the parser there is nothing but a value and a panic. -/
  complete : ∀ tokens tree, Token.lex r source = .ok tokens → Expr.ofTokens tokens = .ok tree →
    (∀ p, ∀ i ∈ (tree.recorded r).2, ¬i.Panics r p) → ∃ v, outcome = success source tokens tree v
  reported : ∀ expression tokens tree error causes, outcome = failure expression tokens tree error causes →
    Reported error causes

theorem settled_run (r : Registry) (source : String) : Settled r source (run r source) where
  lex _ := run_of_lex
  parse _ _ hl he := run_of_parse hl he
  value tokens tree v hl he := by
    refine ⟨fun h => ?_, run_of_value hl he⟩
    rcases value_or_panic hl he with ⟨w, hw⟩ | ⟨p, hp⟩
    · rw [run_of_value hl he hw] at h
      cases h
      exact hw
    · rw [run_of_panic hl he hp] at h
      cases h
  panic tokens tree p hl he := by
    rw [← Expr.eval_eq_panic_iff]
    refine ⟨fun h => ?_, run_of_panic hl he⟩
    rcases value_or_panic hl he with ⟨v, hv⟩ | ⟨q, hq⟩
    · rw [run_of_value hl he hv] at h
      cases h
    · rw [run_of_panic hl he hq] at h
      cases h
      exact hq
  complete tokens tree hl he hpanics := by
    rcases value_or_panic hl he with ⟨v, hv⟩ | ⟨p, hp⟩
    · exact ⟨v, run_of_value hl he hv⟩
    · obtain ⟨i, hi, hp⟩ := Expr.eval_eq_panic_iff.1 hp
      exact absurd hp (hpanics p i hi)
  reported _ _ _ _ _ := reported_of_run

/-- With the standard functions every tree that is read from a source has a value. -/
theorem exists_value_standard {tokens : List Token} {tree : Expr} (hl : Token.lex .standard source = .ok tokens)
    (he : Expr.ofTokens tokens = .ok tree) : ∃ v, tree.eval .standard = .ok v := by
  refine (value_or_panic hl he).resolve_right ?_
  rintro ⟨p, hp⟩
  obtain ⟨i, -, f, hf, -, hpanic⟩ := Expr.eval_eq_panic_iff.1 hp
  obtain ⟨v, hv⟩ := Registry.exists_native_standard hf i.args
  rw [hv] at hpanic
  cases hpanic

theorem isSuccess_standard_iff : (run .standard source).isSuccess = true ↔
    ∃ tokens tree, Token.lex .standard source = .ok tokens ∧ Expr.ofTokens tokens = .ok tree := by
  constructor
  · intro h
    cases hrun : run .standard source with
    | success expression tokens tree v =>
      obtain ⟨-, hl, he, -⟩ := run_eq_success_iff.1 hrun
      exact ⟨tokens, tree, hl, he⟩
    | failure =>
      rw [hrun] at h
      cases h
  · rintro ⟨tokens, tree, hl, he⟩
    obtain ⟨v, hv⟩ := exists_value_standard hl he
    rw [run_of_value hl he hv]
    rfl

/-- With its three guards, an evaluation comes to what its first failing stage says, and no guard but the last one
ever catches a panic. With the standard functions it fails in the lexer or in the parser only. -/
theorem guarded_settled (hsize : source.utf8ByteSize < 2 ^ 30) :
    (∀ p r, guarded p r source = run r source ∧ Settled r source (guarded p r source)) ∧
    (∀ p, (guarded p .standard source).isSuccess = true ↔
      ∃ tokens tree, Token.lex .standard source = .ok tokens ∧ Expr.ofTokens tokens = .ok tree) := by
  refine ⟨fun p r => ?_, fun p => ?_⟩
  · rw [guarded_eq p hsize]
    exact ⟨rfl, settled_run r source⟩
  · rw [guarded_eq p hsize]
    exact isSuccess_standard_iff

/-- A panic with a text of its own, in a registry of one function. -/
theorem guarded_settled_panic : "2 + boom()".utf8ByteSize < 2 ^ 30 ∧
    ((∀ p r, guarded p r "2 + boom()" = run r "2 + boom()" ∧ Settled r "2 + boom()" (guarded p r "2 + boom()")) ∧
      (∀ p, (guarded p .standard "2 + boom()").isSuccess = true ↔ ∃ tokens tree,
        Token.lex .standard "2 + boom()" = .ok tokens ∧ Expr.ofTokens tokens = .ok tree)) ∧
    (run ⟨[⟨"boom", [], fun _ => .error (.made "out of range")⟩], [], by decide⟩ "2 + boom()").isSuccess = false :=
  ⟨by decide, guarded_settled (by decide), by decide +kernel⟩

/-! ## Sources of any size -/

/-- Evaluates an expression with a guard around each stage and the counters of either build. What goes wrong in the
lexer is the panic `p`. -/
def guardedIn (o : Overflow) (p : Panic) (r : Registry) (expression : String) : Evaluation :=
  match settle "lex" .lex (orPanic p (Token.lexIn? o r expression)) with
  | .error broken => ofBreak expression none none broken
  | .ok tokens =>
    match settle "parse" .parse (.ok (Expr.ofTokens tokens)) with
    | .error broken => ofBreak expression (some tokens) none broken
    | .ok tree =>
      match settle "eval" .eval (tried (tree.eval r)) with
      | .error broken => ofBreak expression (some tokens) (some tree) broken
      | .ok value => success expression tokens tree value

theorem guardedIn_panics (p : Panic) (r : Registry) (source : String) :
    guardedIn .panics p r source = guarded p r source := by
  rw [guardedIn, Token.lexIn?_panics]
  rfl

/-- Below 2 ^ 30 bytes the counters of neither build matter. -/
theorem guardedIn_eq (o : Overflow) (p : Panic) (hsize : source.utf8ByteSize < 2 ^ 30) :
    guardedIn o p r source = run r source := by
  rw [← guarded_eq p hsize, guarded, guardedIn, Token.lexIn?_eq o r hsize, Token.lex?_eq r hsize]

/-- A counter that runs over is a fault of the lexer. -/
theorem guardedIn_of_runsOver {o : Overflow} (p : Panic) (h : Token.RunsOver o r source) :
    guardedIn o p r source = failure source none none (.fault ⟨p, "lex"⟩) [.panic p.message] := by
  rw [guardedIn, h.panics]
  rfl

theorem value?_guardedIn_eq_some_iff {o : Overflow} {p : Panic} {v : Float} :
    (guardedIn o p r source).value? = some v ↔
      ∃ tokens e, Token.lexIn? o r source = some (.ok tokens) ∧ Expr.ofTokens tokens = .ok e ∧ e.eval r = .ok v := by
  unfold guardedIn
  cases hl : Token.lexIn? o r source with
  | none => simp [orPanic, settle, ofBreak, value?]
  | some result =>
    cases result with
    | error e => simp [orPanic, settle, ofBreak, value?]
    | ok tokens =>
      cases he : Expr.ofTokens tokens with
      | error e => simp [orPanic, settle, ofBreak, value?, he]
      | ok tree =>
        cases hv : tree.eval r with
        | ok w => simp [orPanic, settle, tried, value?, he, hv]
        | error halt => cases halt <;> simp [orPanic, settle, tried, ofBreak, value?, he, hv]

end Evaluation

end Reckon
