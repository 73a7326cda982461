import Reckon.Proofs.Guards
import Reckon.Proofs.Token.Obstacles
/-!
# Larger registries

A registry that has all the entries of another may have more of them, with whatever names the other leaves free. No
name occurs twice in it, so it finds under every name of the smaller registry just what that finds. Only known names
get through the lexer, and those in a tree are the ones in its tokens: so a source without unknown names comes to the
same in both.
-/

namespace Reckon

/-- The registry has every entry of the other. -/
structure Registry.Extends (larger r : Registry) : Prop where
  functions : r.functions ⊆ larger.functions
  constants : r.constants ⊆ larger.constants

variable {larger r : Registry}

/-! ## Looking up -/

namespace Registry.Extends

variable {name : String}

theorem constant?_eq (h : larger.Extends r) {c : Constant} (hc : r.constant? name = some c) :
    larger.constant? name = some c := by
  obtain ⟨hmem, hname⟩ := constant?_eq_some_iff.1 hc
  exact constant?_eq_some_iff.2 ⟨h.constants hmem, hname⟩

theorem function?_eq (h : larger.Extends r) {f : NativeFunction} (hf : r.function? name = some f) :
    larger.function? name = some f := by
  obtain ⟨hmem, hname⟩ := function?_eq_some_iff.1 hf
  exact function?_eq_some_iff.2 ⟨h.functions hmem, hname⟩

/-- A lexeme that stands for a token stands for the same one. -/
theorem kindOf_eq (h : larger.Extends r) {text : List Char} {s : Shape} {kind : Token.Kind}
    (hk : r.kindOf text s = .ok kind) : larger.kindOf text s = .ok kind := by
  cases s with
  | name =>
    rw [kindOf]
    rcases Token.of_resolve hk with ⟨c, hc, hname, rfl⟩ | ⟨f, hf, hname, rfl⟩
    · rw [← hname]
      exact Token.resolve_constant (h.constants hc)
    · rw [← hname]
      exact Token.resolve_function (h.functions hf)
  | leftParen | rightParen | comma | operator | integer | decimal => exact hk

end Registry.Extends

/-! ## Values -/

namespace Tree

mutual

theorem value_of_extends (h : larger.Extends r) : ∀ t : Tree, t.Registered r → t.value larger = t.value r
  | number _, _ => rfl
  | constant name v, hreg => by
    obtain ⟨c, hc, hname, -⟩ := hreg (.constant name v) (List.mem_singleton_self _)
    have hsome : r.constant? name = some c := Registry.constant?_eq_some_iff.2 ⟨hc, hname⟩
    rw [value, value, hsome, h.constant?_eq hsome]
  | negate t, hreg => by
    rw [value, value, value_of_extends h t (List.forall_mem_cons.1 hreg).2]
  | binary op left right, hreg => by
    unfold Registered nodes at hreg
    rw [List.forall_mem_append, List.forall_mem_cons] at hreg
    rw [value, value, value_of_extends h left hreg.1, value_of_extends h right hreg.2.2]
  | call name args, hreg => by
    unfold Registered nodes at hreg
    obtain ⟨⟨f, hf, hname⟩, hargs⟩ := List.forall_mem_cons.1 hreg
    have hsome : r.function? name = some f := Registry.function?_eq_some_iff.2 ⟨hf, hname⟩
    have hcall : larger.callTree name = r.callTree name := by
      funext xs
      unfold Registry.callTree
      rw [hsome, h.function?_eq hsome]
    rw [value, value, values_of_extends h args hargs, hcall]

theorem values_of_extends (h : larger.Extends r) : ∀ ts : List Tree, (∀ n ∈ nodesAll ts, n.Registered r) →
    values larger ts = values r ts
  | [], _ => rfl
  | t :: ts, hreg => by
    rw [nodesAll, List.forall_mem_append] at hreg
    rw [values, values, value_of_extends h t hreg.1, values_of_extends h ts hreg.2]

end

theorem Registered.extend (h : larger.Extends r) {t : Tree} (hreg : t.Registered r) : t.Registered larger := by
  intro n hn
  cases hr : n with
  | number | operator => trivial
  | constant name v =>
    obtain ⟨c, hc, hcv⟩ := hr ▸ hreg n hn
    exact ⟨c, h.constants hc, hcv⟩
  | function name =>
    obtain ⟨f, hf, hname⟩ := hr ▸ hreg n hn
    exact ⟨f, h.functions hf, hname⟩

end Tree

/-- A tree with registered names evaluates alike in a larger registry, failures included. -/
theorem Expr.eval_of_extends (h : larger.Extends r) {e : Expr} (hreg : e.tree.Registered r) : e.eval larger = e.eval r := by
  refine Halt.eq_of_stop (eval_ne_error larger (hreg.extend h)) (eval_ne_error r hreg) ?_
  rw [stop_eval, stop_eval, Tree.value_of_extends h _ hreg]

/-! ## Tokens -/

/-- The unknown name that the failure is about. -/
def Failure.unknown? : Failure → Option String
  | lex ⟨.unknownIdentifier name, _, _⟩ => some name
  | _ => none

namespace Token

theorem unknown?_of_kindOf {text : List Char} {s : Shape} {kind : LexError.Kind} (h : r.kindOf text s = .error kind)
    (span : Span) (location : Location) : (Failure.lex ⟨kind, span, location⟩).unknown? ≠ none := by
  obtain ⟨-, hresolve⟩ := kindOf_eq_error_iff.1 h
  obtain ⟨rfl, -⟩ := resolve_eq_error_iff.1 hresolve
  exact Option.some_ne_none _

/-- The lexer goes on as in the smaller registry until that has come to an unknown name. -/
theorem lexFrom_of_extends (h : larger.Extends r) (t : Tracker) (here : Nat) (cs : List Char) :
    lexFrom larger t here cs = lexFrom r t here cs ∨
      ∃ e, lexFrom r t here cs = .error e ∧ (Failure.lex e).unknown? ≠ none := by
  induction t, here, cs using lexFrom.induct r with
  | case1 t here =>
    left
    rw [lexFrom, lexFrom]
  | case2 t here c rest hb ih =>
    rw [lexFrom, lexFrom, if_pos hb, if_pos hb]
    exact ih
  | case3 t here c rest hb hl =>
    left
    rw [lexFrom, lexFrom, if_neg hb, if_neg hb]
    simp only [hl]
  | case4 t here c rest hb shape more hl kind hk =>
    right
    rw [lexFrom, if_neg hb]
    simp only [hl, hk]
    exact ⟨_, rfl, unknown?_of_kindOf hk _ _⟩
  | case5 t here c rest hb t' shape more hl span kind hk e he ih
  | case6 t here c rest hb t' shape more hl span kind hk tokens he ih =>
    rw [lexFrom, lexFrom, if_neg hb, if_neg hb]
    simp only [hl, hk, h.kindOf_eq hk]
    rcases ih with heq | ⟨e', he', hunknown⟩
    · left
      rw [heq]
    · right
      rw [he']
      exact ⟨e', rfl, hunknown⟩

/-- So does the lexer that finds everything by offsets, where it goes wrong as well. -/
theorem lexFrom?_of_extends (h : larger.Extends r) (w : Watch) (here : Nat) (cs : List Char) :
    lexFrom? larger w here cs = lexFrom? r w here cs ∨
      ∃ e, lexFrom? r w here cs = some (.error e) ∧ (Failure.lex e).unknown? ≠ none := by
  induction w, here, cs using lexFrom?.induct with
  | case1 w here =>
    left
    rw [lexFrom?, lexFrom?]
  | case2 w here c rest hb ih =>
    rw [lexFrom?, lexFrom?, if_pos hb, if_pos hb]
    exact ih
  | case3 w here c rest hb ih =>
    rw [lexFrom?, lexFrom?, if_neg hb, if_neg hb]
    cases w.locate? here with
    | none => exact .inl rfl
    | some w' =>
      rw [Option.bind_some, Option.bind_some]
      cases hl : Shape.longest? c rest with
      | none => exact .inl rfl
      | some found =>
        obtain ⟨shape, more⟩ := found
        cases hk : r.kindOf (c :: more) shape with
        | error kind =>
          right
          simp only [hk]
          exact ⟨_, rfl, unknown?_of_kindOf hk _ _⟩
        | ok kind =>
          simp only [hk, h.kindOf_eq hk]
          rcases ih w' more with heq | ⟨e', he', hunknown⟩
          · left
            rw [heq]
          · right
            rw [he']
            exact ⟨e', rfl, hunknown⟩

/-- By offsets too, the lexer gives registered names only. -/
theorem registered_of_lexFrom? (w : Watch) (here : Nat) (cs : List Char) :
    ∀ tokens, lexFrom? r w here cs = some (.ok tokens) → ∀ t ∈ tokens, ∀ n, t.kind.node? = some n → n.Registered r := by
  induction w, here, cs using lexFrom?.induct with
  | case1 w here =>
    intro tokens hl t ht n hn
    rw [lexFrom?] at hl
    obtain ⟨w', -, hw⟩ := Option.map_eq_some_iff.1 hl
    cases hw
    cases List.mem_singleton.1 ht
    cases hn
  | case2 w here c rest hb ih =>
    intro tokens hl
    rw [lexFrom?, if_pos hb] at hl
    exact ih tokens hl
  | case3 w here c rest hb ih =>
    intro tokens hl
    rw [lexFrom?, if_neg hb] at hl
    obtain ⟨w', -, hl⟩ := Option.bind_eq_some_iff.1 hl
    cases hlongest : Shape.longest? c rest with
    | none =>
      rw [hlongest] at hl
      obtain ⟨ahead, -, ha⟩ := Option.map_eq_some_iff.1 hl
      cases ha
    | some found =>
      obtain ⟨shape, more⟩ := found
      cases hk : r.kindOf (c :: more) shape with
      | error kind =>
        simp only [hlongest, hk] at hl
        cases hl
      | ok kind =>
        simp only [hlongest, hk] at hl
        obtain ⟨outcome, hrest, ho⟩ := Option.map_eq_some_iff.1 hl
        cases outcome with
        | error e => cases ho
        | ok tokens' =>
          cases ho
          intro t ht n hn
          rcases List.mem_cons.1 ht with rfl | ht
          · exact registered_of_kindOf hk hn
          · exact ih w' more tokens' hrest t ht n hn

end Token

/-! ## Evaluations -/

namespace Evaluation

/-- The unknown name that the evaluation failed at. -/
def unknown? : Evaluation → Option String
  | success .. => none
  | failure _ _ _ error _ => error.unknown?

variable {source : String}

theorem run_of_extends (h : larger.Extends r) (hknown : (run r source).unknown? = none) :
    run larger source = run r source := by
  have hlex : Token.lex larger source = Token.lex r source := by
    refine (Token.lexFrom_of_extends h _ _ _).resolve_right ?_
    rintro ⟨e, he, hunknown⟩
    rw [run_of_lex he] at hknown
    exact hunknown hknown
  unfold run
  rw [hlex]
  cases hl : Token.lex r source with
  | error e => rfl
  | ok tokens =>
    dsimp only
    cases he : Expr.ofTokens tokens with
    | error e => rfl
    | ok tree =>
      dsimp only
      rw [Expr.eval_of_extends h (Token.registered_of_lex hl he)]

theorem guarded_of_extends {p : Panic} (h : larger.Extends r) (hknown : (guarded p r source).unknown? = none) :
    guarded p larger source = guarded p r source := by
  have hlex : Token.lex? larger source = Token.lex? r source := by
    refine (Token.lexFrom?_of_extends h _ _ _).resolve_right ?_
    rintro ⟨e, he, hunknown⟩
    have hl : Token.lex? r source = some (.error e) := he
    unfold guarded at hknown
    rw [hl] at hknown
    exact hunknown hknown
  unfold guarded
  rw [hlex]
  cases hl : Token.lex? r source with
  | none => rfl
  | some outcome =>
    cases outcome with
    | error e => rfl
    | ok tokens =>
      dsimp only [orPanic, settle]
      cases he : Expr.ofTokens tokens with
      | error e => rfl
      | ok tree =>
        dsimp only
        rw [Expr.eval_of_extends h (Token.registered_of_tokens (Token.registered_of_lexFrom? _ _ _ tokens hl) he)]

/-- Entries that are added to a registry change nothing but what fails at an unknown name: everything else comes to
the same tokens, the same tree and the same value, or the same failure, with or without guards and for sources of any
size. -/
theorem kept_of_extends (h : larger.Extends r) (source : String) :
    ((run r source).unknown? = none → run larger source = run r source) ∧
      ∀ p, (guarded p r source).unknown? = none → guarded p larger source = guarded p r source :=
  ⟨run_of_extends h, fun _ => guarded_of_extends h⟩

/-- A function that panics. Before it the larger registry has one whose name goes on where that of a constant ends. -/
theorem kept_of_extends_panic : ∃ larger r : Registry, larger.Extends r ∧
    (run r "x + boom()").unknown? = none ∧ (run r "x + boom()").isSuccess = false ∧
    run larger "x + boom()" = run r "x + boom()" ∧
    (run r "x1() + x").unknown? = some "x1" ∧ (run larger "x1() + x").isSuccess = true := by
  let boom : NativeFunction := ⟨"boom", [], fun _ => .error (.made "out of range")⟩
  let small : Registry := ⟨[boom], [⟨"x", 2⟩], by decide⟩
  let large : Registry := ⟨[⟨"x1", [], fun _ => .ok 1⟩, boom], [⟨"bo", 1⟩, ⟨"x", 2⟩], by decide⟩
  have h : large.Extends small := ⟨List.subset_cons_self _ _, List.subset_cons_self _ _⟩
  have hknown : (run small "x + boom()").unknown? = none := by decide +kernel
  refine ⟨large, small, h, hknown, by decide +kernel, (kept_of_extends h "x + boom()").1 hknown, ?_, ?_⟩
  · decide +kernel
  · decide +kernel

end Evaluation

end Reckon
