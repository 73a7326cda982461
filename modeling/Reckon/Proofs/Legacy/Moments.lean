import Mathlib.Logic.Relation
import Reckon.Proofs.Legacy.Layering
/-!
# Every moment of a conversion

A conversion pushes and pops one entry of its stack at a time. `Moment.advance` makes one such move, and the moves
from the first moment on end with what the conversion gives. Each of them keeps the stack layered, even while
operators are released for another one; so at every moment the entries of a group are operators that bind the tighter
the higher they lie, with functions on top of them. An operator therefore meets a function that waits before it has
released anything, or never.
-/

namespace Reckon.Legacy

/-! ## Moments and moves -/

/-- What a conversion is about to do. -/
inductive Activity where
  /-- It takes the next token, or empties the stack when there are no more. -/
  | read
  /-- It makes way for an operator, for which those in `released` have left the stack, in their order. -/
  | makeWay (op : Operator) (released : List Operator)
  /-- It empties the stack down to the parenthesis of a group. -/
  | close
  /-- It takes the function of a closed group, if there is one. -/
  | apply

/-- A moment of a conversion: what is to be done, the tokens ahead, what waits, and the program so far. -/
structure Moment where
  activity : Activity
  tokens : List Token
  stack : List Pending
  program : List Item

/-- What a move leads to. -/
inductive Move where
  | on (m : Moment)
  | ends (program : List Item)
  | fails (e : Error)

/-- The end of a conversion. -/
def Move.ofResult : Except Error (List Item) → Move
  | .ok program => .ends program
  | .error e => .fails e

variable {r : Registry} {op : Operator} {tokens : List Token} {stack rest : List Pending} {items program : List Item}
  {released : List Operator} {t : Token} {e : Error}

namespace Moment

variable {m m' m'' : Moment}

/-- The moment before the first token is taken. -/
def start (tokens : List Token) : Moment := ⟨.read, tokens, [], []⟩

/-- Takes a token. An operator and the end of a group touch the stack by later moves only. -/
def take (r : Registry) (m : Moment) (tokens : List Token) : Token → Moment
  | .number v => { m with tokens, program := m.program ++ [.number v] }
  | .symbol s =>
    match r.function? s with
    | some f => { m with tokens, stack := .function f :: m.stack }
    | none =>
      match operator? s with
      | some op => { m with activity := .makeWay op [], tokens }
      | none =>
        if s = "(" then { m with tokens, stack := .opening :: m.stack }
        else if s = ")" then { m with activity := .close, tokens }
        else { m with tokens }

/-- Makes one move. -/
def advance (r : Registry) (m : Moment) : Move :=
  match m.activity with
  | .read =>
    match m.tokens with
    | t :: tokens => .on (m.take r tokens t)
    | [] =>
      match m.stack with
      | [] => .ends m.program
      | p :: stack => .on { m with stack, program := m.program ++ p.item?.toList }
  | .makeWay op released =>
    match m.stack with
    | .operator top :: stack =>
      if yields op top then
        .on { m with activity := .makeWay op (released ++ [top]), stack, program := m.program ++ [.operator top] }
      else .on { m with activity := .read, stack := .operator op :: m.stack }
    | .function f :: _ => .fails (.functionWithoutArgument f.name)
    | _ => .on { m with activity := .read, stack := .operator op :: m.stack }
  | .close =>
    match m.stack with
    | [] => .on { m with activity := .apply }
    | .opening :: stack => .on { m with activity := .apply, stack }
    | p :: stack => .on { m with stack, program := m.program ++ p.item?.toList }
  | .apply =>
    match m.stack with
    | .function f :: stack => .on { m with activity := .read, stack, program := m.program ++ [.function f] }
    | _ => .on { m with activity := .read }

/-- From one moment to another by some moves. -/
def Reaches (r : Registry) : Moment → Moment → Prop := Relation.ReflTransGen fun m m' => m.advance r = .on m'

theorem Reaches.head (h : m.advance r = .on m') (h' : m'.Reaches r m'') : m.Reaches r m'' := Relation.ReflTransGen.head h h'

/-! ## The moves of a conversion -/

theorem reaches_emptied (stack : List Pending) : ∀ program,
    Reaches r ⟨.read, [], stack, program⟩ ⟨.read, [], [], program ++ stack.filterMap Pending.item?⟩ := by
  induction stack with
  | nil =>
    intro program
    rw [List.filterMap_nil, List.append_nil]
    exact .refl
  | cons p stack ih =>
    intro program
    have hitems : (p :: stack).filterMap Pending.item? = p.item?.toList ++ stack.filterMap Pending.item? := by
      rw [List.filterMap_cons]
      cases p.item? <;> rfl
    rw [hitems, ← List.append_assoc]
    exact .head rfl (ih _)

/-- The moves for an operator that finds its place. -/
theorem reaches_of_makeWay (h : makeWay op stack = .ok (items, rest)) : ∀ released program,
    Reaches r ⟨.makeWay op released, tokens, stack, program⟩ ⟨.read, tokens, .operator op :: rest, program ++ items⟩ := by
  fun_induction makeWay op stack generalizing items with
  | case1 top stack hy items' rest' hm ih =>
    intro released program
    cases h
    have hrest := ih hm (released ++ [top]) (program ++ [.operator top])
    rw [List.append_assoc, List.singleton_append] at hrest
    exact .head (if_pos hy) hrest
  | case2 top stack hy e hm ih => cases h
  | case3 top stack hy =>
    intro released program
    cases h
    rw [List.append_nil]
    exact .head (if_neg hy) .refl
  | case4 f stack => cases h
  | case5 stack hop hf =>
    intro released program
    cases h
    rw [List.append_nil]
    cases rest with
    | nil => exact .head rfl .refl
    | cons p rest =>
      cases p with
      | opening => exact .head rfl .refl
      | operator top => exact absurd rfl (hop top rest)
      | function f => exact absurd rfl (hf f rest)

/-- The moves for an operator that meets a function. -/
theorem exists_failing_of_makeWay (h : makeWay op stack = .error e) : ∀ released program,
    ∃ m, Reaches r ⟨.makeWay op released, tokens, stack, program⟩ m ∧ m.advance r = .fails e := by
  fun_induction makeWay op stack with
  | case1 top stack hy items' rest' hm ih => cases h
  | case2 top stack hy e' hm ih =>
    intro released program
    cases h
    obtain ⟨m, hreach, hfail⟩ := ih hm (released ++ [top]) (program ++ [.operator top])
    exact ⟨m, .head (if_pos hy) hreach, hfail⟩
  | case3 top stack hy => cases h
  | case4 f stack =>
    intro released program
    cases h
    exact ⟨_, .refl, rfl⟩
  | case5 stack hop hf => cases h

/-- The moves for the end of a group. -/
theorem reaches_of_closeGroup (stack : List Pending) : ∀ program,
    Reaches r ⟨.close, tokens, stack, program⟩ ⟨.read, tokens, (closeGroup stack).2, program ++ (closeGroup stack).1⟩ := by
  fun_induction closeGroup stack with
  | case1 =>
    intro program
    rw [List.append_nil]
    exact .head rfl (.head rfl .refl)
  | case2 f stack => exact fun program => .head rfl (.head rfl .refl)
  | case3 stack hf =>
    intro program
    rw [List.append_nil]
    refine .head rfl (.head ?_ .refl)
    cases stack with
    | nil => rfl
    | cons p stack =>
      cases p with
      | opening | operator _ => rfl
      | function f => exact absurd rfl (hf f stack)
  | case4 op stack ih =>
    intro program
    have hrest := ih (program ++ [.operator op])
    rw [List.append_assoc, List.singleton_append] at hrest
    exact .head rfl hrest
  | case5 f stack ih =>
    intro program
    have hrest := ih (program ++ [.function f])
    rw [List.append_assoc, List.singleton_append] at hrest
    exact .head rfl hrest

/-- The moves for a token that is taken. -/
theorem reaches_of_step (h : step r stack t = .ok (items, rest)) (program : List Item) :
    Reaches r ⟨.read, t :: tokens, stack, program⟩ ⟨.read, tokens, rest, program ++ items⟩ := by
  have htake : advance r ⟨.read, t :: tokens, stack, program⟩ = .on (take r ⟨.read, t :: tokens, stack, program⟩ tokens t) := rfl
  refine .head htake ?_
  cases t with
  | number v =>
    cases h
    exact .refl
  | symbol s =>
    rw [take]
    cases hf : r.function? s with
    | some f =>
      rw [step, hf] at h
      cases h
      rw [List.append_nil]
      exact .refl
    | none =>
      cases hop : operator? s with
      | some op =>
        obtain ⟨way, hway, rfl⟩ := exists_way_of_step hf hop h
        exact reaches_of_makeWay hway [] program
      | none =>
        rw [step, hf] at h
        simp only [hop] at h
        by_cases hs : s = "("
        · rw [if_pos hs] at h
          cases h
          simp only [if_pos hs, List.append_nil]
          exact .refl
        · by_cases hs' : s = ")"
          · rw [if_neg hs, if_pos hs'] at h
            obtain ⟨rfl, rfl⟩ := Prod.mk.inj (Except.ok.inj h)
            simp only [if_neg hs, if_pos hs']
            exact reaches_of_closeGroup stack program
          · rw [if_neg hs, if_neg hs'] at h
            cases h
            simp only [if_neg hs, if_neg hs', List.append_nil]
            exact .refl

/-- The moves for a token that fails. -/
theorem exists_failing_of_step (h : step r stack t = .error e) (program : List Item) :
    ∃ m, Reaches r ⟨.read, t :: tokens, stack, program⟩ m ∧ m.advance r = .fails e := by
  obtain ⟨s, op, rfl, hf, hop, hway⟩ := exists_operator_of_step_error h
  obtain ⟨m, hreach, hfail⟩ := exists_failing_of_makeWay hway [] program
  have htake : advance r ⟨.read, .symbol s :: tokens, stack, program⟩ =
      .on (take r ⟨.read, .symbol s :: tokens, stack, program⟩ tokens (.symbol s)) := rfl
  refine ⟨m, .head htake ?_, hfail⟩
  simp only [take, hf, hop]
  exact hreach

/-- The moves of a conversion lead to what it gives. -/
theorem exists_last (tokens : List Token) : ∀ stack program, ∃ m, Reaches r ⟨.read, tokens, stack, program⟩ m ∧
    m.advance r = .ofResult ((convert r stack tokens).map (program ++ ·)) := by
  induction tokens with
  | nil => exact fun stack program => ⟨_, reaches_emptied stack program, rfl⟩
  | cons t tokens ih =>
    intro stack program
    rw [convert]
    cases hstep : step r stack t with
    | error e => exact exists_failing_of_step hstep program
    | ok taken =>
      obtain ⟨items, rest⟩ := taken
      obtain ⟨m, hreach, hlast⟩ := ih rest (program ++ items)
      refine ⟨m, (reaches_of_step hstep program).trans hreach, hlast.trans ?_⟩
      simp only
      cases convert r rest tokens with
      | error e => rfl
      | ok more => simp only [Except.map, List.append_assoc]

/-! ## What every move keeps -/

/-- The stack with those operators put back that have left it for another one. -/
def found (m : Moment) : List Pending :=
  match m.activity with
  | .makeWay _ released => released.map .operator ++ m.stack
  | _ => m.stack

theorem layered_take (h : Layered stack) (before : List Token) (t : Token) :
    Layered (take r ⟨.read, before, stack, program⟩ tokens t).found := by
  cases t with
  | number v => exact h
  | symbol s =>
    rw [take]
    cases r.function? s with
    | some f => exact h.function f
    | none =>
      cases operator? s with
      | some op => exact h
      | none =>
        by_cases hs : s = "("
        · simp only [if_pos hs]
          exact h.opening
        · by_cases hs' : s = ")"
          · simp only [if_neg hs, if_pos hs']
            exact h
          · simp only [if_neg hs, if_neg hs']
            exact h

/-- A move keeps the stack layered, and so it is with the operators put back that were released last. -/
theorem layered_of_advance (h : Layered m.found) (hmove : m.advance r = .on m') : Layered m'.found := by
  obtain ⟨activity, tokens, stack, program⟩ := m
  cases activity with
  | read =>
    cases tokens with
    | cons t tokens =>
      cases hmove
      exact layered_take h _ t
    | nil =>
      cases stack with
      | nil => cases hmove
      | cons p stack =>
        cases hmove
        exact h.tail
  | makeWay op released =>
    have hstack : Layered stack := h.suffix (List.suffix_append _ _)
    cases stack with
    | nil =>
      cases hmove
      exact .singleton _
    | cons p stack =>
      cases p with
      | opening =>
        cases hmove
        exact hstack.cons fun _ hp => Option.some.inj hp ▸ trivial
      | function f => cases hmove
      | operator top =>
        unfold advance at hmove
        dsimp only at hmove
        by_cases hy : yields op top = true
        · rw [if_pos hy] at hmove
          cases hmove
          simp only [found, List.map_append, List.append_assoc]
          exact h
        · rw [if_neg hy] at hmove
          cases hmove
          exact List.isChain_cons_cons.2 ⟨rests_of_not_yields hy, hstack⟩
  | close =>
    cases stack with
    | nil =>
      cases hmove
      exact h
    | cons p stack =>
      cases p <;> cases hmove <;> exact h.tail
  | apply =>
    cases stack with
    | nil =>
      cases hmove
      exact h
    | cons p stack =>
      cases p with
      | opening | operator top =>
        cases hmove
        exact h
      | function f =>
        cases hmove
        exact h.tail

theorem layered_of_reaches (h : Layered m.found) (hreach : m.Reaches r m') : Layered m'.found := by
  induction hreach with
  | refl => exact h
  | tail _ hmove ih => exact layered_of_advance ih hmove

theorem Reaches.layered (h : (start tokens).Reaches r m) : Layered m.found :=
  layered_of_reaches (show Layered (start tokens).found from layered_nil) h

end Moment

/-! ## Groups -/

/-- An operator that binds tighter may lie on another one, and a power on a power. -/
def Ascends (below above : Operator) : Prop := precedence below < precedence above ∨ below = .pow ∧ above = .pow

/-- From its bottom up, the group has operators that ascend and then functions. -/
def Ascending (group : List Pending) : Prop := ∃ (operators : List Operator) (functions : List NativeFunction),
  group = operators.map .operator ++ functions.map .function ∧ operators.IsChain Ascends

theorem Layered.exists_split {group : List Pending} (h : Layered group) (hgroup : .opening ∉ group) :
    ∃ (functions : List NativeFunction) (operators : List Operator),
      group = functions.map .function ++ operators.map .operator ∧ operators.IsChain (flip Ascends) := by
  induction group with
  | nil => exact ⟨[], [], rfl, .nil⟩
  | cons p group ih =>
    obtain ⟨hp, hgroup⟩ := List.ne_and_not_mem_of_not_mem_cons hgroup
    obtain ⟨functions, operators, rfl, hchain⟩ := ih h.tail hgroup
    cases p with
    | opening => exact absurd rfl hp
    | function f => exact ⟨f :: functions, operators, rfl, hchain⟩
    | operator op =>
      cases functions with
      | cons f functions => exact absurd (List.isChain_cons_cons.1 h).1 id
      | nil =>
        refine ⟨[], op :: operators, rfl, ?_⟩
        cases operators with
        | nil => exact .singleton _
        | cons below operators =>
          exact List.isChain_cons_cons.2 ⟨(List.isChain_cons_cons.1 h).1.imp_right And.symm, hchain⟩

theorem Layered.ascending {group : List Pending} (h : Layered stack) (hgroup : group <:+: stack) (hne : .opening ∉ group) :
    Ascending group.reverse := by
  have hlayered : Layered group := List.IsChain.infix h hgroup
  obtain ⟨functions, operators, rfl, hchain⟩ := hlayered.exists_split hne
  refine ⟨operators.reverse, functions.reverse, ?_, List.isChain_reverse.2 hchain⟩
  rw [List.reverse_append, List.map_reverse, List.map_reverse]

namespace Moment

variable {m : Moment}

/-- What is true of a moment. -/
structure Orderly (r : Registry) (m : Moment) : Prop where
  /-- What lies between parentheses on the stack, or below the first or above the last of them, is in order. -/
  groups : ∀ group, group <:+: m.stack → .opening ∉ group → Ascending group.reverse
  /-- An operator fails at a function on top of the stack that it has found, before it has released anything. -/
  fails : ∀ e, m.advance r = .fails e → ∃ op f below, m.activity = .makeWay op [] ∧ m.stack = .function f :: below ∧
    e = .functionWithoutArgument f.name

theorem exists_function_of_fails (h : m.advance r = .fails e) : ∃ op released f below,
    m.activity = .makeWay op released ∧ m.stack = .function f :: below ∧ e = .functionWithoutArgument f.name := by
  obtain ⟨activity, tokens, stack, program⟩ := m
  cases activity with
  | read => cases tokens <;> cases stack <;> cases h
  | makeWay op released =>
    cases stack with
    | nil => cases h
    | cons p stack =>
      cases p with
      | opening => cases h
      | function f =>
        cases h
        exact ⟨op, released, f, stack, rfl, rfl, rfl⟩
      | operator top =>
        unfold advance at h
        dsimp only at h
        split at h <;> cases h
  | close =>
    cases stack with
    | nil => cases h
    | cons p stack => cases p <;> cases h
  | apply =>
    cases stack with
    | nil => cases h
    | cons p stack => cases p <;> cases h

/-- No operator has been released from a layered stack when a function is on top of what is left. -/
theorem eq_nil_of_layered {f : NativeFunction} (h : Layered (released.map .operator ++ .function f :: stack)) :
    released = [] := by
  induction released with
  | nil => rfl
  | cons op released ih =>
    obtain rfl := ih h.tail
    exact absurd (List.isChain_cons_cons.1 h).1 id

theorem Reaches.orderly (h : (start tokens).Reaches r m) : m.Orderly r where
  groups group hgroup hne := by
    refine Layered.ascending h.layered (hgroup.trans ?_) hne
    unfold found
    split
    · exact (List.suffix_append _ _).isInfix
    · exact List.infix_refl _
  fails e hfails := by
    obtain ⟨op, released, f, below, hactivity, hstack, rfl⟩ := exists_function_of_fails hfails
    have hlayered := h.layered
    rw [found, hactivity, hstack] at hlayered
    obtain rfl := eq_nil_of_layered hlayered
    exact ⟨op, f, below, hactivity, hstack, rfl⟩

/-- The moments of a conversion lead to what it gives, and at each of them the groups on the stack are in order:
operators that bind the tighter the higher they lie, and functions on top. So an operator fails only as it arrives. -/
theorem orderly_moments (r : Registry) (tokens : List Token) :
    (∃ m, (start tokens).Reaches r m ∧ m.advance r = .ofResult (convert r [] tokens)) ∧
      ∀ m, (start tokens).Reaches r m → m.Orderly r := by
  refine ⟨?_, fun m h => h.orderly⟩
  obtain ⟨m, hreach, hlast⟩ := exists_last (r := r) tokens [] []
  refine ⟨m, hreach, hlast.trans ?_⟩
  cases convert r [] tokens <;> rfl

end Moment

end Reckon.Legacy
