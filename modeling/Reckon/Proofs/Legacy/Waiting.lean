import Reckon.Legacy.Evaluation
import Reckon.Proofs.Legacy.Layering
/-!
# Functions without their argument

A function waits on the stack for the group that is its argument, and an operator that is read before fails. We follow
the functions that wait along the tokens, without a stack: a name joins those of its group, and a group that closes is
the argument of the most recent one around it. Since no operator ever lies on a function, these are just the functions
on the stack, and where there are any in the innermost group the most recent one is on top.
-/

namespace Reckon.Legacy

variable {r : Registry} {op : Operator} {f : NativeFunction} {stack rest last : List Pending} {items : List Item}
  {t : Token} {tokens before after : List Token} {e : Error}

/-! ## Reading along -/

/-- The functions that wait for their argument: those of the innermost open group, and those around it from the inside
out. Of each group the most recent comes first. -/
structure Waiting where
  here : List NativeFunction
  around : List (List NativeFunction)

namespace Waiting

/-- Before any token nothing waits, and no group is open. -/
def start : Waiting := ⟨[], []⟩

/-- Reads one more token. The end of a group is the argument of the most recent function around it, if any waits
there. -/
def read (r : Registry) (w : Waiting) : Token → Waiting
  | .number _ => w
  | .symbol s =>
    match r.function? s with
    | some f => ⟨f :: w.here, w.around⟩
    | none =>
      if s = "(" then ⟨[], w.here :: w.around⟩
      else if s = ")" then ⟨(w.around.headD []).tail, w.around.tail⟩
      else w

section Read

variable {w : Waiting} {s : String}

theorem read_function (hf : r.function? s = some f) : w.read r (.symbol s) = ⟨f :: w.here, w.around⟩ := by
  simp only [read, hf]

theorem read_opening (hf : r.function? "(" = none) : w.read r (.symbol "(") = ⟨[], w.here :: w.around⟩ := by
  simp only [read, hf, if_pos]

theorem read_closing (hf : r.function? ")" = none) :
    w.read r (.symbol ")") = ⟨(w.around.headD []).tail, w.around.tail⟩ := by
  simp only [read, hf]
  rfl

theorem read_other (hf : r.function? s = none) (hs : s ≠ "(") (hs' : s ≠ ")") : w.read r (.symbol s) = w := by
  simp only [read, hf, if_neg hs, if_neg hs']

end Read

/-- What waits behind some tokens. -/
def behind (r : Registry) (tokens : List Token) : Waiting := tokens.foldl (read r) start

theorem behind_append_singleton (tokens : List Token) (t : Token) :
    behind r (tokens ++ [t]) = (behind r tokens).read r t := by
  rw [behind, List.foldl_append]
  rfl

end Waiting

/-! ## The stack -/

/-- What waits on a stack. -/
def waitingOn : List Pending → Waiting
  | [] => .start
  | .opening :: stack => ⟨[], (waitingOn stack).here :: (waitingOn stack).around⟩
  | .operator _ :: stack => waitingOn stack
  | .function f :: stack => ⟨f :: (waitingOn stack).here, (waitingOn stack).around⟩

theorem waitingOn_append (released : List Operator) : waitingOn (released.map .operator ++ stack) = waitingOn stack := by
  induction released with
  | nil => rfl
  | cons op released ih => exact ih

/-- Below an operator no function of its group waits. -/
theorem Layered.here_eq_nil (h : Layered (.operator op :: stack)) : (waitingOn stack).here = [] := by
  induction stack generalizing op with
  | nil => rfl
  | cons p stack ih =>
    obtain ⟨hrests, h⟩ := List.isChain_cons_cons.1 h
    cases p with
    | opening => rfl
    | operator below => exact ih h
    | function f => exact hrests.elim

/-- The end of a group drops what waits in it, and takes the most recent function around it. -/
theorem waitingOn_closeGroup (h : Layered stack) : waitingOn (closeGroup stack).2 =
    ⟨((waitingOn stack).around.headD []).tail, (waitingOn stack).around.tail⟩ := by
  fun_induction closeGroup stack with
  | case1 => rfl
  | case2 f stack => rfl
  | case3 stack hf =>
    -- Where no function is on top of what is around the group, none waits there.
    have hnil : (waitingOn stack).here = [] := by
      cases stack with
      | nil => rfl
      | cons p stack =>
        cases p with
        | opening => rfl
        | operator op => exact h.tail.here_eq_nil
        | function f => exact absurd rfl (hf f stack)
    simp only [waitingOn, List.headD_cons, List.tail_cons, hnil, List.tail_nil]
    rw [← hnil]
  | case4 op stack ih => exact ih h.tail
  | case5 f stack ih => exact ih h.tail

/-- A token changes what waits on the stack as reading it does. -/
theorem waitingOn_of_step (h : Layered stack) (hstep : step r stack t = .ok (items, rest)) :
    waitingOn rest = (waitingOn stack).read r t := by
  cases takes_of_step hstep with
  | number v => rfl
  | function hf => rw [Waiting.read_function hf, waitingOn]
  | @operator s op way released hf hop hstack =>
    have hs : s ≠ "(" ∧ s ≠ ")" := by
      refine ⟨?_, ?_⟩ <;> rintro rfl <;> cases hop
    rw [Waiting.read_other hf hs.1 hs.2, waitingOn, hstack, waitingOn_append]
  | opening hf => rw [Waiting.read_opening hf, waitingOn]
  | closing hf => rw [Waiting.read_closing hf, waitingOn_closeGroup h]
  | nothing hf hop hs hs' => rw [Waiting.read_other hf hs hs']

theorem waitingOn_of_takeAll (h : Layered stack) (htake : takeAll r stack tokens = .ok (items, last)) :
    waitingOn last = tokens.foldl (Waiting.read r) (waitingOn stack) := by
  induction tokens generalizing stack items with
  | nil =>
    cases htake
    rfl
  | cons t tokens ih =>
    obtain ⟨items', rest, more, hstep, hmore, rfl⟩ := takeAll_cons_eq_ok.1 htake
    rw [ih (layered_of_step h hstep) hmore, waitingOn_of_step h hstep, List.foldl_cons]

/-! ## Failing operators -/

theorem exists_waiting_of_makeWay_error (h : makeWay op stack = .error e) :
    ∃ f, (waitingOn stack).here.head? = some f ∧ e = .functionWithoutArgument f.name := by
  fun_induction makeWay op stack with
  | case1 top stack hy items rest hm ih => cases h
  | case2 top stack hy e' hm ih =>
    cases h
    exact ih hm
  | case3 top stack hy => cases h
  | case4 f stack =>
    cases h
    exact ⟨f, rfl, rfl⟩
  | case5 stack hop hf => cases h

/-- A function that waits in the innermost group is on top of the stack, and fails an operator. -/
theorem Layered.makeWay_error (h : Layered stack) (hf : (waitingOn stack).here.head? = some f) :
    makeWay op stack = .error (.functionWithoutArgument f.name) := by
  cases stack with
  | nil => cases hf
  | cons p stack =>
    cases p with
    | opening => cases hf
    | operator below =>
      rw [waitingOn, h.here_eq_nil] at hf
      cases hf
    | function g =>
      cases hf
      rfl

theorem item?_eq_operator_iff : t.item? r = some (.operator op) ↔
    ∃ s, t = .symbol s ∧ r.function? s = none ∧ operator? s = some op := by
  refine ⟨fun h => ?_, ?_⟩
  · cases t with
    | number v => cases h
    | symbol s =>
      rw [Token.item?] at h
      cases hf : r.function? s with
      | some f =>
        rw [hf] at h
        cases h
      | none =>
        rw [hf] at h
        obtain ⟨op', hop, heq⟩ := Option.map_eq_some_iff.1 h
        cases heq
        exact ⟨s, rfl, hf, hop⟩
  · rintro ⟨s, rfl, hf, hop⟩
    rw [Token.item?, hf, hop]
    rfl

/-- Behind the tokens `before` comes an operator, and `f` is the most recent function that waits in its group. -/
structure Blocks (r : Registry) (f : NativeFunction) (before : List Token) (t : Token) : Prop where
  operator : ∃ op, t.item? r = some (.operator op)
  waits : (Waiting.behind r before).here.head? = some f

/-- A token fails just if it is an operator in whose group a function waits. -/
theorem step_error_iff (htake : takeAll r [] before = .ok (items, stack)) :
    step r stack t = .error e ↔ ∃ f, Blocks r f before t ∧ e = .functionWithoutArgument f.name := by
  have hlayered : Layered stack := layered_of_takeAll layered_nil htake
  have hwaiting : waitingOn stack = Waiting.behind r before := waitingOn_of_takeAll layered_nil htake
  refine ⟨fun h => ?_, ?_⟩
  · obtain ⟨s, op, rfl, hf, hop, hm⟩ := exists_operator_of_step_error h
    obtain ⟨f, hwaits, rfl⟩ := exists_waiting_of_makeWay_error hm
    exact ⟨f, ⟨⟨op, item?_eq_operator_iff.2 ⟨s, rfl, hf, hop⟩⟩, hwaiting ▸ hwaits⟩, rfl⟩
  · rintro ⟨f, ⟨⟨op, hitem⟩, hwaits⟩, rfl⟩
    obtain ⟨s, rfl, hf, hop⟩ := item?_eq_operator_iff.1 hitem
    rw [step_operator hf hop, hlayered.makeWay_error (hwaiting.symm ▸ hwaits)]
    rfl

/-- Tokens are taken as long as no operator is blocked. -/
theorem exists_takeAll_of_not_blocks (h : ∀ f front u, front ++ [u] <+: tokens → ¬Blocks r f front u) :
    ∃ items stack, takeAll r [] tokens = .ok (items, stack) := by
  cases htake : takeAll r [] tokens with
  | ok taken => exact ⟨taken.1, taken.2, rfl⟩
  | error e =>
    obtain ⟨front, u, more, items, stack, rfl, hfront, hu⟩ := exists_of_takeAll_error htake
    obtain ⟨f, hblocks, -⟩ := (step_error_iff hfront).1 hu
    refine absurd hblocks (h f front u ⟨more, ?_⟩)
    rw [List.append_assoc, List.singleton_append]

theorem takeAll_append (before tokens : List Token) : takeAll r stack (before ++ tokens) =
    (takeAll r stack before).bind fun taken => (takeAll r taken.2 tokens).map fun more => (taken.1 ++ more.1, more.2) := by
  induction before generalizing stack with
  | nil =>
    rw [List.nil_append, takeAll]
    change takeAll r stack tokens = (takeAll r stack tokens).map fun more => more
    cases takeAll r stack tokens <;> rfl
  | cons t before ih =>
    rw [List.cons_append, takeAll, takeAll]
    cases step r stack t with
    | error e => rfl
    | ok taken =>
      obtain ⟨items, rest⟩ := taken
      simp only [ih]
      cases takeAll r rest before with
      | error e => rfl
      | ok taken =>
        obtain ⟨more, last⟩ := taken
        simp only [Except.bind]
        cases takeAll r last tokens with
        | error e => rfl
        | ok taken => simp only [Except.map, List.append_assoc]

/-- An operator that is blocked fails, whatever comes behind it. -/
theorem convert_of_blocks (htake : takeAll r [] before = .ok (items, stack)) (hblocks : Blocks r f before t)
    (after : List Token) : convert r [] (before ++ t :: after) = .error (.functionWithoutArgument f.name) := by
  have hstep := (step_error_iff htake).2 ⟨f, hblocks, rfl⟩
  rw [convert_eq, takeAll_append, htake]
  simp only [Except.bind, takeAll, hstep]
  rfl

/-- A conversion fails just if some operator is blocked. -/
theorem exists_convert_error_iff : (∃ e, convert r [] tokens = .error e) ↔
    ∃ f before t after, tokens = before ++ t :: after ∧ Blocks r f before t := by
  refine ⟨?_, ?_⟩
  · rintro ⟨e, h⟩
    rw [convert_eq] at h
    cases htake : takeAll r [] tokens with
    | ok taken =>
      rw [htake] at h
      cases h
    | error e' =>
      obtain ⟨before, t, after, items, stack, rfl, hbefore, ht⟩ := exists_of_takeAll_error htake
      obtain ⟨f, hblocks, -⟩ := (step_error_iff hbefore).1 ht
      exact ⟨f, before, t, after, rfl, hblocks⟩
  · rintro ⟨f, before, t, after, rfl, hblocks⟩
    cases htake : takeAll r [] before with
    | error e =>
      refine ⟨e, ?_⟩
      rw [convert_eq, takeAll_append, htake]
      rfl
    | ok taken => exact ⟨_, convert_of_blocks htake hblocks after⟩

/-! ## Names with their group -/

/-- Every name of a function is directly followed by an opening parenthesis. -/
def Applied (r : Registry) (tokens : List Token) : Prop :=
  ∀ before s after, tokens = before ++ .symbol s :: after → (r.function? s).isSome → after.head? = some (.symbol "(")

theorem Applied.eq_opening (h : Applied r tokens) (htokens : tokens = before ++ t :: after) {s : String}
    (hlast : before.getLast? = some (.symbol s)) (hf : (r.function? s).isSome) : t = .symbol "(" := by
  obtain ⟨front, rfl⟩ := List.getLast?_eq_some_iff.1 hlast
  rw [List.append_assoc, List.singleton_append] at htokens
  have hhead := h front s (t :: after) htokens hf
  rw [List.head?_cons] at hhead
  exact Option.some.inj hhead

/-- In each group around at most one function waits, and in the innermost one none, unless its name has just been
read. -/
structure Settled (r : Registry) (before : List Token) : Prop where
  around : ∀ fs ∈ (Waiting.behind r before).around, fs.length ≤ 1
  here : (Waiting.behind r before).here = [] ∨ ∃ s f, before.getLast? = some (.symbol s) ∧ r.function? s = some f ∧
    (Waiting.behind r before).here = [f]

/-- Around a group that closes no function is left that waits. -/
theorem Settled.tail_headD (h : Settled r before) : ((Waiting.behind r before).around.headD []).tail = [] := by
  have haround := h.around
  generalize (Waiting.behind r before).around = outer at haround ⊢
  cases outer with
  | nil => rfl
  | cons fs outer =>
    have hlength := haround fs List.mem_cons_self
    refine List.eq_nil_of_length_eq_zero ?_
    rw [List.headD_cons, List.length_tail]
    omega

theorem Settled.append (h : Settled r before) (hopen : r.function? "(" = none)
    (ht : ∀ s, before.getLast? = some (.symbol s) → (r.function? s).isSome → t = .symbol "(") :
    Settled r (before ++ [t]) := by
  have hbehind := Waiting.behind_append_singleton (r := r) before t
  rcases h.here with hhere | ⟨s, f, hlast, hf, hhere⟩
  · cases t with
    | number v => exact ⟨hbehind ▸ h.around, .inl (hbehind ▸ hhere)⟩
    | symbol s =>
      cases hf : r.function? s with
      | some f =>
        rw [Waiting.read_function hf, hhere] at hbehind
        exact ⟨hbehind ▸ h.around, .inr ⟨s, f, List.getLast?_concat, hf, by rw [hbehind]⟩⟩
      | none =>
        by_cases hs : s = "("
        · subst hs
          rw [Waiting.read_opening hf, hhere] at hbehind
          exact ⟨hbehind ▸ List.forall_mem_cons.2 ⟨Nat.zero_le 1, h.around⟩, .inl (by rw [hbehind])⟩
        · by_cases hs' : s = ")"
          · subst hs'
            rw [Waiting.read_closing hf, h.tail_headD] at hbehind
            exact ⟨hbehind ▸ fun fs hfs => h.around fs (List.mem_of_mem_tail hfs), .inl (by rw [hbehind])⟩
          · rw [Waiting.read_other hf hs hs'] at hbehind
            exact ⟨hbehind ▸ h.around, .inl (hbehind ▸ hhere)⟩
  · -- The name that has just been read is followed by its group.
    obtain rfl := ht s hlast (by rw [hf]; rfl)
    rw [Waiting.read_opening hopen, hhere] at hbehind
    exact ⟨hbehind ▸ List.forall_mem_cons.2 ⟨Nat.le_refl 1, h.around⟩, .inl (by rw [hbehind])⟩

/-- Applied names are settled all along. -/
theorem settled_of_applied (h : Applied r tokens) (hopen : r.function? "(" = none) (front : List Token) :
    front <+: tokens → Settled r front := by
  induction front using List.reverseRecOn with
  | nil => exact fun _ => ⟨List.forall_mem_nil _, .inl rfl⟩
  | append_singleton front u ih =>
    rintro ⟨more, rfl⟩
    rw [List.append_assoc] at h ih
    exact (ih (List.prefix_append _ _)).append hopen fun s hlast hf => h.eq_opening rfl hlast hf

/-- So no operator is blocked. -/
theorem not_blocks_of_applied (h : Applied r tokens) (hopen : r.function? "(" = none)
    (htokens : tokens = before ++ t :: after) : ¬Blocks r f before t := by
  rintro ⟨⟨op, hitem⟩, hwaits⟩
  rcases (settled_of_applied h hopen before ⟨_, htokens.symm⟩).here with hhere | ⟨s, g, hlast, hg, -⟩
  · rw [hhere] at hwaits
    cases hwaits
  · obtain rfl := h.eq_opening htokens hlast (by rw [hg]; rfl)
    obtain ⟨s', hs', -, hop⟩ := item?_eq_operator_iff.1 hitem
    cases hs'
    cases hop

/-! ## Admitted expressions -/

theorem Evaluation.run_of_convert_error {expression : String} (h : check registry expression = .ok ())
    (hconvert : convert registry [] (Token.lex registry expression.toList) = .error e) :
    run expression = .failure expression (some (Token.lex registry expression.toList)) e := by
  unfold run
  simp only [h, hconvert]

/-- An admitted expression succeeds just if its tokens are converted. -/
theorem Evaluation.isSuccess_run {expression : String} (h : check registry expression = .ok ()) :
    (run expression).isSuccess = (convert registry [] (Token.lex registry expression.toList)).isOk := by
  unfold run
  simp only [h]
  cases convert registry [] (Token.lex registry expression.toList) <;> rfl

/-- When the evaluation of an expression with these tokens fails. -/
structure FailsAtOperator (expression : String) (tokens : List Token) : Prop where
  /-- It fails just if an operator is read while a function of its group waits. -/
  fails_iff : (Evaluation.run expression).isSuccess = false ↔
    ∃ f before t after, tokens = before ++ t :: after ∧ Blocks registry f before t
  /-- The tokens in front of the first such operator are converted. The operator fails whatever comes behind it, and
  names the most recent function that waits. -/
  first : ∀ f before t after, tokens = before ++ t :: after → Blocks registry f before t →
    (∀ g front u, front ++ [u] <+: before → ¬Blocks registry g front u) →
      (∃ program, convert registry [] before = .ok program) ∧
        (∀ after', convert registry [] (before ++ t :: after') = .error (.functionWithoutArgument f.name)) ∧
        Evaluation.run expression = .failure expression (some tokens) (.functionWithoutArgument f.name)
  /-- It does not fail where every function has its group. -/
  applied : Applied registry tokens → (Evaluation.run expression).isSuccess = true

/-- An admitted expression fails at the first operator in whose group a function waits for its argument. -/
theorem failsAtOperator_of_check {expression : String} (h : check registry expression = .ok ()) :
    FailsAtOperator expression (Token.lex registry expression.toList) := by
  have hfails : (Evaluation.run expression).isSuccess = false ↔
      ∃ f before t after, Token.lex registry expression.toList = before ++ t :: after ∧ Blocks registry f before t := by
    rw [Evaluation.isSuccess_run h, ← exists_convert_error_iff]
    cases convert registry [] (Token.lex registry expression.toList) <;> simp [Except.isOk, Except.toBool]
  refine ⟨hfails, ?_, fun happlied => ?_⟩
  · intro f before t after htokens hblocks hfirst
    obtain ⟨items, stack, htake⟩ := exists_takeAll_of_not_blocks hfirst
    have hconvert := convert_of_blocks htake hblocks
    refine ⟨⟨_, by rw [convert_eq, htake]; rfl⟩, hconvert, Evaluation.run_of_convert_error h ?_⟩
    rw [htokens, hconvert]
  · rw [← Bool.not_eq_false, hfails]
    rintro ⟨f, before, t, after, htokens, hblocks⟩
    exact not_blocks_of_applied happlied rfl htokens hblocks

/-- The group is the argument of the function next to it, and the other one waits for its own. -/
theorem failsAtOperator_of_check_stacked : check registry "sin cos (1) + 3" = .ok () ∧
    FailsAtOperator "sin cos (1) + 3" (Token.lex registry "sin cos (1) + 3".toList) ∧
      ∃ f before t after, Token.lex registry "sin cos (1) + 3".toList = before ++ t :: after ∧
        Blocks registry f before t := by
  have hcheck : check registry "sin cos (1) + 3" = .ok () := by decide +kernel
  have hfails := failsAtOperator_of_check hcheck
  exact ⟨hcheck, hfails, hfails.fails_iff.1 (by decide +kernel)⟩

end Reckon.Legacy
