import Reckon.Legacy.Names
import Reckon.Legacy.Program
import Reckon.Proofs.Registry.Lookup
/-!
# Taking tokens one after the other

The legacy route makes its program while it takes its tokens, with a stack of what waits. `Takes` lists what one token
can do to the program and the stack. From it we read off what every run keeps: the program and what waits hold just
the items of the tokens that were taken, and as many groups are open on the stack as among the tokens.
-/

namespace Reckon.Legacy

open scoped List

/-- Takes the tokens one after the other: what goes into the program, and what waits afterwards. -/
def takeAll (r : Registry) (stack : List Pending) : List Token → Except Error (List Item × List Pending)
  | [] => .ok ([], stack)
  | t :: ts =>
    match step r stack t with
    | .error e => .error e
    | .ok (items, rest) =>
      match takeAll r rest ts with
      | .error e => .error e
      | .ok (more, last) => .ok (items ++ more, last)

variable {r : Registry} {stack rest last : List Pending} {items : List Item} {t : Token} {e : Error}

theorem takeAll_cons_eq_ok {ts : List Token} :
    takeAll r stack (t :: ts) = .ok (items, last) ↔ ∃ items' rest more, step r stack t = .ok (items', rest) ∧
      takeAll r rest ts = .ok (more, last) ∧ items = items' ++ more := by
  refine ⟨fun h => ?_, ?_⟩
  · rw [takeAll] at h
    split at h
    · cases h
    · next items' rest hstep =>
      split at h
      · cases h
      · next more last' hmore =>
        cases h
        exact ⟨items', rest, more, hstep, hmore, rfl⟩
  · rintro ⟨items', rest, more, hstep, hmore, rfl⟩
    rw [takeAll, hstep]
    simp only [hmore]

/-- A conversion takes the tokens, and at their end what waits goes into the program. -/
theorem convert_eq (ts : List Token) :
    convert r stack ts = (takeAll r stack ts).map fun taken => taken.1 ++ taken.2.filterMap Pending.item? := by
  induction ts generalizing stack with
  | nil => rfl
  | cons t ts ih =>
    rw [convert, takeAll]
    cases step r stack t with
    | error e => rfl
    | ok taken =>
      obtain ⟨items, rest⟩ := taken
      simp only [ih]
      cases takeAll r rest ts with
      | error e => rfl
      | ok more => simp [Except.map]

/-! ## One token -/

/-- An operator releases some of the operators on top of the stack. -/
theorem exists_of_makeWay {op : Operator} (h : makeWay op stack = .ok (items, rest)) :
    ∃ released : List Operator, stack = released.map .operator ++ rest ∧ items = released.map .operator := by
  fun_induction makeWay op stack generalizing items with
  | case1 top stack hy items' rest' hm ih =>
    cases h
    obtain ⟨released, rfl, rfl⟩ := ih hm
    exact ⟨top :: released, rfl, rfl⟩
  | case2 top stack hy e hm ih => cases h
  | case3 top stack hy =>
    cases h
    exact ⟨[], rfl, rfl⟩
  | case4 f stack => cases h
  | case5 stack hop hf =>
    cases h
    exact ⟨[], rfl, rfl⟩

/-- An operator fails at a function that waits. -/
theorem exists_of_makeWay_error {op : Operator} (h : makeWay op stack = .error e) :
    ∃ f, .function f ∈ stack ∧ e = .functionWithoutArgument f.name := by
  fun_induction makeWay op stack with
  | case1 top stack hy items' rest' hm ih => cases h
  | case2 top stack hy e' hm ih =>
    cases h
    obtain ⟨f, hf, rfl⟩ := ih hm
    exact ⟨f, List.mem_cons_of_mem _ hf, rfl⟩
  | case3 top stack hy => cases h
  | case4 f stack =>
    cases h
    exact ⟨f, List.mem_cons_self, rfl⟩
  | case5 stack hop hf => cases h

/-- What taking a token does: what goes into the program, and what waits afterwards. -/
inductive Takes (r : Registry) (stack : List Pending) : Token → List Item → List Pending → Prop
  | number (v) : Takes r stack (.number v) [.number v] stack
  | function {s f} : r.function? s = some f → Takes r stack (.symbol s) [] (.function f :: stack)
  | operator {s op rest} {released : List Operator} : r.function? s = none → operator? s = some op →
      stack = released.map .operator ++ rest →
      Takes r stack (.symbol s) (released.map .operator) (.operator op :: rest)
  | opening : r.function? "(" = none → Takes r stack (.symbol "(") [] (.opening :: stack)
  | closing : r.function? ")" = none → Takes r stack (.symbol ")") (closeGroup stack).1 (closeGroup stack).2
  | nothing {s} : r.function? s = none → operator? s = none → s ≠ "(" → s ≠ ")" → Takes r stack (.symbol s) [] stack

theorem takes_of_step (h : step r stack t = .ok (items, rest)) : Takes r stack t items rest := by
  unfold step at h
  split at h
  · cases h
    exact .number _
  · next s =>
    split at h
    · next f hf =>
      cases h
      exact .function hf
    · next hf =>
      split at h
      · next op hop =>
        split at h
        · next hm =>
          cases h
          obtain ⟨released, hstack, rfl⟩ := exists_of_makeWay hm
          exact .operator hf hop hstack
        · cases h
      · next hop =>
        split at h
        · next hs =>
          subst hs
          cases h
          exact .opening hf
        · next hs =>
          split at h
          · next hs' =>
            subst hs'
            obtain ⟨rfl, rfl⟩ := Prod.mk.inj (Except.ok.inj h)
            exact .closing hf
          · next hs' =>
            cases h
            exact .nothing hf hop hs hs'

/-- Only an operator fails, and only if no way can be made for it. -/
theorem exists_operator_of_step_error (h : step r stack t = .error e) :
    ∃ s op, t = .symbol s ∧ r.function? s = none ∧ operator? s = some op ∧ makeWay op stack = .error e := by
  unfold step at h
  split at h
  · cases h
  · next s =>
    split at h
    · cases h
    · next hf =>
      split at h
      · next op hop =>
        split at h
        · cases h
        · next hm =>
          cases h
          exact ⟨s, op, rfl, hf, hop, hm⟩
      · split at h
        · cases h
        · split at h <;> cases h

/-- Only a function that waits makes a token fail. -/
theorem exists_of_step_error (h : step r stack t = .error e) :
    ∃ f, .function f ∈ stack ∧ e = .functionWithoutArgument f.name := by
  obtain ⟨s, op, -, -, -, hm⟩ := exists_operator_of_step_error h
  exact exists_of_makeWay_error hm

/-! ## Items -/

/-- What a token puts into the program, at once or later. -/
def Token.item? (r : Registry) : Token → Option Item
  | number v => some (.number v)
  | symbol s =>
    match r.function? s with
    | some f => some (.function f)
    | none => (operator? s).map .operator

theorem filterMap_item? (pending : List Operator) :
    (pending.map Pending.operator).filterMap Pending.item? = pending.map Item.operator := by
  induction pending with
  | nil => rfl
  | cons op pending ih => simp only [List.map_cons, List.filterMap_cons, Pending.item?, ih]

/-- The end of a group moves items from the stack to the program, in their order. -/
theorem closeGroup_items (stack : List Pending) :
    (closeGroup stack).1 ++ (closeGroup stack).2.filterMap Pending.item? = stack.filterMap Pending.item? := by
  fun_induction closeGroup stack with
  | case1 => rfl
  | case2 f stack => rfl
  | case3 stack _ => rfl
  | case4 op stack ih => rw [List.filterMap_cons, Pending.item?, ← ih, List.cons_append]
  | case5 f stack ih => rw [List.filterMap_cons, Pending.item?, ← ih, List.cons_append]

/-- A token adds its item to those of the program and of the stack. -/
theorem Takes.items_perm (h : Takes r stack t items rest) :
    (items ++ rest.filterMap Pending.item?).Perm ((t.item? r).toList ++ stack.filterMap Pending.item?) := by
  cases h with
  | number v => exact .refl _
  | @function s f hf =>
    rw [Token.item?, hf]
    exact .refl _
  | @operator s op rest released hf hop hstack =>
    rw [Token.item?, hf, hop, hstack, List.filterMap_append, filterMap_item?]
    exact List.perm_middle
  | opening hf =>
    rw [Token.item?, hf]
    exact .refl _
  | closing hf =>
    rw [Token.item?, hf, closeGroup_items]
    exact .refl _
  | @nothing s hf hop hs hs' =>
    rw [Token.item?, hf, hop]
    exact .refl _

/-- The program and the stack hold the items of the tokens that were taken, and no others. -/
theorem takeAll_items_perm {ts : List Token} (h : takeAll r stack ts = .ok (items, last)) :
    (items ++ last.filterMap Pending.item?).Perm (ts.filterMap (Token.item? r) ++ stack.filterMap Pending.item?) := by
  induction ts generalizing stack items with
  | nil =>
    cases h
    exact .refl _
  | cons t ts ih =>
    obtain ⟨items', rest, more, hstep, hmore, rfl⟩ := takeAll_cons_eq_ok.1 h
    have htoken := (takes_of_step hstep).items_perm
    calc items' ++ more ++ last.filterMap Pending.item?
      _ ~ items' ++ (ts.filterMap (Token.item? r) ++ rest.filterMap Pending.item?) := by
        rw [List.append_assoc]
        exact (ih hmore).append_left items'
      _ ~ ts.filterMap (Token.item? r) ++ (items' ++ rest.filterMap Pending.item?) := List.perm_append_comm_assoc ..
      _ ~ ts.filterMap (Token.item? r) ++ ((t.item? r).toList ++ stack.filterMap Pending.item?) :=
        htoken.append_left _
      _ ~ (t.item? r).toList ++ (ts.filterMap (Token.item? r) ++ stack.filterMap Pending.item?) :=
        List.perm_append_comm_assoc ..
      _ ~ (t :: ts).filterMap (Token.item? r) ++ stack.filterMap Pending.item? := by
        rw [List.filterMap_cons]
        cases t.item? r <;> exact .refl _

/-! ## Functions -/

theorem mem_functions_of_item? {f : NativeFunction} (h : t.item? r = some (.function f)) : f ∈ r.functions := by
  cases t with
  | number v => cases h
  | symbol s =>
    rw [Token.item?] at h
    cases hf : r.function? s with
    | none =>
      rw [hf] at h
      obtain ⟨op, -, hop⟩ := Option.map_eq_some_iff.1 h
      cases hop
    | some g =>
      rw [hf] at h
      cases h
      exact (Registry.function?_eq_some_iff.1 hf).1

/-- The registry has every function of the program and of the stack. -/
theorem mem_functions_of_takeAll {ts : List Token} {f : NativeFunction} (h : takeAll r [] ts = .ok (items, last))
    (hf : .function f ∈ items ∨ .function f ∈ last) : f ∈ r.functions := by
  have hperm := takeAll_items_perm h
  rw [List.filterMap_nil, List.append_nil] at hperm
  have hmem : .function f ∈ items ++ last.filterMap Pending.item? := by
    refine List.mem_append.2 (hf.imp_right fun hf => ?_)
    exact List.mem_filterMap.2 ⟨.function f, hf, rfl⟩
  obtain ⟨t, -, ht⟩ := List.mem_filterMap.1 (hperm.mem_iff.1 hmem)
  exact mem_functions_of_item? ht

/-- A run that fails does so at one of its tokens. -/
theorem exists_of_takeAll_error {ts : List Token} (h : takeAll r stack ts = .error e) :
    ∃ before t after items last, ts = before ++ t :: after ∧ takeAll r stack before = .ok (items, last) ∧
      step r last t = .error e := by
  induction ts generalizing stack with
  | nil => cases h
  | cons t ts ih =>
    rw [takeAll] at h
    split at h
    · next hstep =>
      cases h
      exact ⟨[], t, ts, [], stack, rfl, rfl, hstep⟩
    · next items rest hstep =>
      split at h
      · next hmore =>
        cases h
        obtain ⟨before, t', after, items', last, rfl, hbefore, ht'⟩ := ih hmore
        exact ⟨t :: before, t', after, items ++ items', last, rfl,
          takeAll_cons_eq_ok.2 ⟨items, rest, items', hstep, hbefore, rfl⟩, ht'⟩
      · cases h

/-- A program whose functions do not panic has a value. -/
theorem exists_valueFrom {program : List Item} (h : ∀ f, .function f ∈ program → f ∈ functions) :
    ∀ stack : List Float, ∃ v, valueFrom stack program = .ok v := by
  induction program with
  | nil => exact fun stack => ⟨top stack, rfl⟩
  | cons item program ih =>
    intro stack
    have hrest := ih fun f hf => h f (List.mem_cons_of_mem _ hf)
    cases item with
    | number v => exact hrest (v :: stack)
    | operator op => exact hrest _
    | function f =>
      obtain ⟨v, hv⟩ := exists_native_eq_ok (h f List.mem_cons_self) ([top stack] ++ f.defaults [top stack].length)
      have hcall : f.call [top stack] = .ok v := hv
      rw [valueFrom, execute, hcall]
      exact hrest (v :: stack.drop 1)

/-- Tokens are converted to a program with a value, unless a function waits for its argument at an operator. -/
theorem convert_cases (ts : List Token) :
    (∃ program v, convert registry [] ts = .ok program ∧ value program = .ok v) ∨
      ∃ f ∈ functions, convert registry [] ts = .error (.functionWithoutArgument f.name) := by
  rw [convert_eq]
  cases h : takeAll registry [] ts with
  | error e =>
    obtain ⟨before, t, after, items, last, -, hbefore, ht⟩ := exists_of_takeAll_error h
    obtain ⟨f, hf, rfl⟩ := exists_of_step_error ht
    exact .inr ⟨f, mem_functions_of_takeAll hbefore (.inr hf), rfl⟩
  | ok taken =>
    -- The registry has the functions of the program, since they come from the tokens, and none of them panics.
    obtain ⟨items, last⟩ := taken
    have hfunctions : ∀ f, .function f ∈ items ++ last.filterMap Pending.item? → f ∈ functions := by
      intro f hf
      refine mem_functions_of_takeAll h ((List.mem_append.1 hf).imp_right fun hf => ?_)
      obtain ⟨p, hp, hpf⟩ := List.mem_filterMap.1 hf
      cases p with
      | opening | operator => cases hpf
      | function g =>
        cases hpf
        exact hp
    obtain ⟨v, hv⟩ := exists_valueFrom hfunctions []
    exact .inl ⟨_, v, rfl, hv⟩

/-! ## Open groups -/

/-- Whether an open parenthesis waits. -/
def Pending.isOpening : Pending → Bool
  | opening => true
  | operator _ => false
  | function _ => false

/-- The number of groups that are open on the stack. -/
def depth (stack : List Pending) : Nat := stack.countP Pending.isOpening

/-- The parenthesis that a token is. -/
def Token.paren? : Token → Option Char
  | number _ => none
  | symbol s => if s = "(" then some '(' else if s = ")" then some ')' else none

theorem mem_opening_iff : .opening ∈ stack ↔ depth stack ≠ 0 := by
  rw [depth, ← Nat.pos_iff_ne_zero, List.countP_pos_iff]
  refine ⟨fun h => ⟨.opening, h, rfl⟩, ?_⟩
  rintro ⟨p, hp, ho⟩
  cases p with
  | opening => exact hp
  | operator | function => cases ho

@[simp] theorem depth_opening : depth (.opening :: stack) = depth stack + 1 := List.countP_cons_of_pos rfl

@[simp] theorem depth_function (f : NativeFunction) : depth (.function f :: stack) = depth stack := rfl

theorem depth_append (released : List Operator) : depth (released.map .operator ++ stack) = depth stack := by
  induction released with
  | nil => rfl
  | cons op released ih => exact ih

/-- The end of a group closes one group, if any is open. -/
theorem depth_closeGroup (stack : List Pending) : depth (closeGroup stack).2 = depth stack - 1 := by
  fun_induction closeGroup stack with
  | case1 => rfl
  | case2 f stack => rw [depth_opening, depth_function, Nat.add_sub_cancel]
  | case3 stack _ => rw [depth_opening, Nat.add_sub_cancel]
  | case4 op stack ih => exact ih
  | case5 f stack ih => exact ih

/-- A group that is closed is gone from the stack. -/
theorem length_closeGroup (h : .opening ∈ stack) : (closeGroup stack).2.length < stack.length := by
  fun_induction closeGroup stack with
  | case1 => cases h
  | case2 f stack => exact Nat.lt_succ_of_lt (Nat.lt_succ_self _)
  | case3 stack _ => exact Nat.lt_succ_self _
  | case4 op stack ih => exact Nat.lt_succ_of_lt (ih (by simpa using h))
  | case5 f stack ih => exact Nat.lt_succ_of_lt (ih (by simpa using h))

/-- A token changes the number of open groups as its parenthesis does. -/
theorem Takes.checkBalance {more : List Char} (h : Takes registry stack t items rest)
    (hb : checkBalance (depth stack) (t.paren?.toList ++ more) = .ok ()) : checkBalance (depth rest) more = .ok () := by
  cases h with
  | number v => exact hb
  | @function s f hf =>
    -- no function is named like a parenthesis
    have hs : s ≠ "(" ∧ s ≠ ")" := by
      refine ⟨?_, ?_⟩ <;> rintro rfl <;> cases hf
    rw [Token.paren?, if_neg hs.1, if_neg hs.2] at hb
    exact hb
  | @operator s op rest released hf hop hstack =>
    have hs : s ≠ "(" ∧ s ≠ ")" := by
      refine ⟨?_, ?_⟩ <;> rintro rfl <;> cases hop
    rw [Token.paren?, if_neg hs.1, if_neg hs.2, hstack, depth_append] at hb
    exact hb
  | opening hf =>
    rw [depth_opening]
    exact hb
  | closing hf =>
    have hclose : Legacy.checkBalance (depth stack) (')' :: more) = .ok () := hb
    rw [Legacy.checkBalance, if_neg (by decide), if_pos rfl] at hclose
    split at hclose
    · cases hclose
    · rwa [depth_closeGroup]
  | @nothing s hf hop hs hs' =>
    rw [Token.paren?, if_neg hs, if_neg hs'] at hb
    exact hb

/-- After some tokens the rest of them closes just the groups that are open on the stack. -/
theorem checkBalance_of_takeAll {ts us : List Token} (h : takeAll registry stack ts = .ok (items, last))
    (hb : checkBalance (depth stack) ((ts ++ us).filterMap Token.paren?) = .ok ()) :
    checkBalance (depth last) (us.filterMap Token.paren?) = .ok () := by
  induction ts generalizing stack items with
  | nil =>
    cases h
    exact hb
  | cons t ts ih =>
    obtain ⟨items', rest, more, hstep, hmore, rfl⟩ := takeAll_cons_eq_ok.1 h
    refine ih hmore ((takes_of_step hstep).checkBalance ?_)
    rw [List.cons_append, List.filterMap_cons] at hb
    cases ht : t.paren? <;> rw [ht] at hb <;> exact hb

end Reckon.Legacy
