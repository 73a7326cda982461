import Reckon.Legacy.Names
import Reckon.Proofs.Expr.Climbing
import Reckon.Proofs.Legacy.Lexing
import Reckon.Proofs.Legacy.Running
/-!
# The legacy program of an expression

The legacy route turns tokens into a program with a stack of pending operators, functions and parentheses. We prove that
the program of a derived expression lists its tree in post-order. After what derives from a nonterminal some of its
operators are still pending, in the order in which the program has to have them; all of them bind at least as tightly as
the chains of that nonterminal, so the next operator of such a chain, or the end of a group, releases just these.
-/

namespace Reckon.Legacy

/-! ## Post-order -/

mutual

/-- The items of a tree, operands before their operator and arguments before their function. Signs have none. -/
def postorder (r : Registry) : Tree → List Item
  | .number v => [.number v]
  | .constant _ v => [.number v]
  | .negate t => postorder r t
  | .binary op left right => postorder r left ++ postorder r right ++ [.operator op]
  | .call name args => postorders r args ++ ((r.function? name).map Item.function).toList

/-- The items of some trees one after the other. -/
def postorders (r : Registry) : List Tree → List Item
  | [] => []
  | t :: ts => postorder r t ++ postorders r ts

end

/-- The tree has no signs, and only calls with one argument of functions that the registry has. -/
inductive Shared (r : Registry) : Tree → Prop
  | number (v) : Shared r (.number v)
  | constant (name v) : Shared r (.constant name v)
  | binary {left right} (op) : Shared r left → Shared r right → Shared r (.binary op left right)
  | call {name f arg} : r.function? name = some f → Shared r arg → Shared r (.call name [arg])

instance Shared.decidable (r : Registry) : (t : Tree) → Decidable (Shared r t)
  | .number v => isTrue (.number v)
  | .constant name v => isTrue (.constant name v)
  | .negate _ => isFalse nofun
  | .binary op left right =>
    match Shared.decidable r left, Shared.decidable r right with
    | isTrue hl, isTrue hr => isTrue (.binary op hl hr)
    | isFalse hl, _ => isFalse fun | .binary _ hl' _ => hl hl'
    | _, isFalse hr => isFalse fun | .binary _ _ hr' => hr hr'
  | .call _ [] => isFalse nofun
  | .call _ (_ :: _ :: _) => isFalse nofun
  | .call name [arg] =>
    match hf : r.function? name, Shared.decidable r arg with
    | some _, isTrue h => isTrue (.call hf h)
    | _, isFalse h => isFalse fun | .call _ h' => h h'
    | none, _ => isFalse fun | .call hf' _ => nomatch hf.symm.trans hf'

/-! ## Steps -/

/-- Taking the tokens puts some items into the program and leaves another stack. -/
def Emits (stack : List Pending) (tokens : List Token) (items : List Item) (stack' : List Pending) : Prop :=
  ∀ rest, convert registry stack (tokens ++ rest) = (convert registry stack' rest).map (items ++ ·)

namespace Emits

variable {stack stack' stack'' : List Pending} {tokens tokens' : List Token} {items items' : List Item}

theorem one {t : Token} (h : step registry stack t = .ok (items, stack')) : Emits stack [t] items stack' := by
  intro rest
  rw [List.singleton_append, convert, h]
  cases hc : convert registry stack' rest with
  | error e => simp only [hc, Except.map]
  | ok more => simp only [hc, Except.map]

theorem append (h : Emits stack tokens items stack') (h' : Emits stack' tokens' items' stack'') :
    Emits stack (tokens ++ tokens') (items ++ items') stack'' := by
  intro rest
  rw [List.append_assoc, h, h']
  cases convert registry stack'' rest with
  | error e => rfl
  | ok more => simp [Except.map]

end Emits

/-- The top of the stack is an open parenthesis or an operator of a precedence below `n`, or there is none. -/
def Below (n : Nat) (stack : List Pending) : Prop :=
  match stack.head? with
  | some (.operator top) => precedence top < n
  | some (.function _) => False
  | some .opening | none => True

theorem Below.mono {m n : Nat} {stack : List Pending} (h : Below m stack) (hmn : m ≤ n) : Below n stack := by
  cases stack with
  | nil => trivial
  | cons top stack =>
    cases top with
    | opening => trivial
    | operator top => exact Nat.lt_of_lt_of_le h hmn
    | function f => exact h

/-- An operator releases the operators that it yields to, down to where it stops. -/
theorem makeWay_append {op : Operator} {pending : List Operator} {stack : List Pending} {n : Nat}
    (hp : ∀ top ∈ pending, yields op top = true) (hs : Below n stack)
    (hn : ∀ top, precedence top < n → yields op top = false) :
    makeWay op (pending.map .operator ++ stack) = .ok (pending.map .operator, stack) := by
  induction pending with
  | nil =>
    cases stack with
    | nil => rfl
    | cons top stack =>
      cases top with
      | opening => rfl
      | function f => exact hs.elim
      | operator top =>
        rw [List.map_nil, List.nil_append, makeWay, hn top hs]
        rfl
  | cons top pending ih =>
    rw [List.forall_mem_cons] at hp
    rw [List.map_cons, List.cons_append, makeWay, hp.1, if_pos rfl, ih hp.2]
    rfl

/-- The end of a group releases its operators. -/
theorem closeGroup_append (pending : List Operator) (stack : List Pending) :
    closeGroup (pending.map .operator ++ stack) =
      (pending.map .operator ++ (closeGroup stack).1, (closeGroup stack).2) := by
  induction pending with
  | nil => rfl
  | cons top pending ih => rw [List.map_cons, List.cons_append, closeGroup, ih]; rfl

theorem closeGroup_opening {n : Nat} {stack : List Pending} (h : Below n stack) :
    closeGroup (.opening :: stack) = ([], stack) := by
  cases stack with
  | nil => rfl
  | cons top stack =>
    cases top with
    | function f => exact h.elim
    | opening | operator => rfl

theorem emits_number (stack : List Pending) (v : Float) : Emits stack [.number v] [.number v] stack := .one rfl

theorem emits_function {name : String} {f : NativeFunction} (stack : List Pending)
    (h : registry.function? name = some f) : Emits stack [.symbol name] [] (.function f :: stack) := by
  refine .one ?_
  rw [step, h]

theorem emits_opening (stack : List Pending) : Emits stack [.symbol "("] [] (.opening :: stack) := .one rfl

theorem emits_closing (stack : List Pending) :
    Emits stack [.symbol ")"] (closeGroup stack).1 (closeGroup stack).2 := .one rfl

theorem emits_operator {op : Operator} {stack rest : List Pending} {items : List Item} (hop : op ≠ .rem)
    (h : makeWay op stack = .ok (items, rest)) : Emits stack [.symbol op.symbol] items (.operator op :: rest) := by
  refine .one ?_
  have hf : registry.function? op.symbol = none := by cases op <;> rfl
  have ho : operator? op.symbol = some op := by
    cases op with
    | rem => exact absurd rfl hop
    | _ => rfl
  rw [step, hf]
  simp only [ho, h]

/-! ## Nonterminals and legacy precedences -/

/-- The least legacy precedence of an operator that a chain of the nonterminal is made with. -/
def rank : Level → Nat
  | .sum => 1
  | .product => 2
  | .power => 3
  | .primary => 4

/-- In front of the nonterminal only operators below this precedence wait. -/
def ceiling : Level → Nat
  | .sum => 1
  | .product => 2
  | .power => 4
  | .primary => 4

section Ranks

variable {op top : Operator}

theorem yields_of_rank (h : rank op.leftLevel ≤ precedence top) : yields op top = true := by
  revert h
  cases op <;> cases top <;> decide

theorem not_yields_of_ceiling (h : precedence top < ceiling op.level) : yields op top = false := by
  revert h
  cases op <;> cases top <;> decide

theorem ceiling_level_le (op : Operator) : ceiling op.level ≤ ceiling op.leftLevel := by cases op <;> decide

theorem precedence_lt_ceiling (op : Operator) : precedence op < ceiling op.rightLevel := by cases op <;> decide

theorem rank_level_le (op : Operator) : rank op.level ≤ rank op.rightLevel := by cases op <;> decide

theorem rank_level_le_precedence (op : Operator) : rank op.level ≤ precedence op := by cases op <;> decide

end Ranks

/-! ## Derived tokens -/

/-- On a stack that the nonterminal does not disturb, the tokens put the tree in post-order into the program, but for
some pending operators. -/
def Converts (level : Level) (ks : List Token.Kind) (t : Tree) : Prop :=
  ∀ stack, Below (ceiling level) stack → ∃ (items : List Item) (pending : List Operator),
    Emits stack (ks.filterMap Token.ofKind?) items (pending.map .operator ++ stack) ∧
      items ++ pending.map .operator = postorder registry t ∧ ∀ op ∈ pending, rank level ≤ precedence op

namespace Converts

variable {ks ks' : List Token.Kind} {t l r : Tree}

theorem loosen {level level' : Level} (h : Converts level ks t) (hc : ceiling level' ≤ ceiling level)
    (hr : rank level' ≤ rank level) : Converts level' ks t := by
  intro stack hs
  obtain ⟨items, pending, he, hp, hrank⟩ := h stack (hs.mono hc)
  exact ⟨items, pending, he, hp, fun op hop => Nat.le_trans hr (hrank op hop)⟩

theorem chain (op : Operator) (hop : op ≠ .rem) (hl : Converts op.leftLevel ks l) (hr : Converts op.rightLevel ks' r) :
    Converts op.level (ks ++ .operator op :: ks') (.binary op l r) := by
  intro stack hs
  obtain ⟨items, pending, he, hp, hrank⟩ := hl stack (hs.mono (ceiling_level_le op))
  have hway := makeWay_append (fun top htop => yields_of_rank (hrank top htop)) hs fun top => not_yields_of_ceiling
  -- The operator has released the left operand's pending ones; it waits itself below the right operand's.
  obtain ⟨items', pending', he', hp', hrank'⟩ := hr (.operator op :: stack) (precedence_lt_ceiling op)
  refine ⟨items ++ (pending.map .operator ++ items'), pending' ++ [op], ?_, ?_, ?_⟩
  · have hall := he.append ((emits_operator hop hway).append he')
    have htokens : (ks ++ .operator op :: ks').filterMap Token.ofKind? =
        ks.filterMap Token.ofKind? ++ ([.symbol op.symbol] ++ ks'.filterMap Token.ofKind?) := by
      cases op with
      | rem => exact absurd rfl hop
      | _ => rw [List.filterMap_append]; rfl
    rw [htokens]
    simpa using hall
  · rw [postorder, ← hp, ← hp']
    simp
  · intro top htop
    rcases List.mem_append.1 htop with htop | htop
    · exact Nat.le_trans (rank_level_le op) (hrank' top htop)
    · rw [List.mem_singleton.1 htop]
      exact rank_level_le_precedence op

/-- An operand is in the program when it has been taken. -/
theorem primary (h : ∀ stack, Below 4 stack → Emits stack (ks.filterMap Token.ofKind?) (postorder registry t) stack) :
    Converts .primary ks t :=
  fun stack hs => ⟨_, [], h stack hs, List.append_nil _, nofun⟩

/-- What a group puts into the program, up to its closing parenthesis. -/
theorem group (h : Converts .sum ks t) (stack : List Pending) :
    ∃ items, Emits stack (.symbol "(" :: ks.filterMap Token.ofKind? ++ [.symbol ")"])
      (items ++ (closeGroup (.opening :: stack)).1) (closeGroup (.opening :: stack)).2 ∧ items = postorder registry t := by
  obtain ⟨items, pending, he, hp, -⟩ := h (.opening :: stack) trivial
  have hclose := emits_closing (pending.map .operator ++ .opening :: stack)
  rw [closeGroup_append] at hclose
  have hall := ((emits_opening stack).append he).append hclose
  refine ⟨items ++ pending.map .operator, ?_, hp⟩
  simpa using hall

end Converts

mutual

theorem converts_of_derives : ∀ {level : Level} {ks : List Token.Kind} {t : Tree}, Derives level ks t →
    Shared registry t → .operator .rem ∉ ks → Converts level ks t
  | _, _, _, .product h, ht, hrem => (converts_of_derives h ht hrem).loosen (by decide) (by decide)
  | _, _, _, .power h, ht, hrem => (converts_of_derives h ht hrem).loosen (by decide) (by decide)
  | _, _, _, .primary h, ht, hrem => (converts_of_derives h ht hrem).loosen (by decide) (by decide)
  | _, _, _, .sumChain hop hl hr, .binary _ htl htr, hrem => by
    simp only [List.mem_append, List.mem_cons, not_or] at hrem
    have hl' := converts_of_derives hl htl hrem.1
    have hr' := converts_of_derives hr htr hrem.2.2
    rcases hop with rfl | rfl
    · exact Converts.chain .add (by decide) hl' hr'
    · exact Converts.chain .sub (by decide) hl' hr'
  | _, _, _, .productChain hop hl hr, .binary _ htl htr, hrem => by
    simp only [List.mem_append, List.mem_cons, not_or] at hrem
    have hl' := converts_of_derives hl htl hrem.1
    have hr' := converts_of_derives hr htr hrem.2.2
    rcases hop with rfl | rfl | rfl
    · exact Converts.chain .mul (by decide) hl' hr'
    · exact Converts.chain .div (by decide) hl' hr'
    · exact absurd rfl hrem.2.1
  | _, _, _, .powerChain hl hr, .binary _ htl htr, hrem => by
    simp only [List.mem_append, List.mem_cons, not_or] at hrem
    exact Converts.chain .pow (by decide) (converts_of_derives hl htl hrem.1) (converts_of_derives hr htr hrem.2.2)
  | _, _, _, .integer v, _, _ => .primary fun stack _ => emits_number stack v
  | _, _, _, .decimal v, _, _ => .primary fun stack _ => emits_number stack v
  | _, _, _, .constant name v, _, _ => .primary fun stack _ => emits_number stack v
  | _, _, _, .group h, ht, hrem => .primary fun stack hs => by
    have hc := converts_of_derives h ht fun hmem => hrem (List.mem_cons_of_mem _ (List.mem_append_left _ hmem))
    obtain ⟨items, he, rfl⟩ := hc.group stack
    rw [closeGroup_opening hs, List.append_nil] at he
    simpa only [List.filterMap_cons, List.filterMap_append, List.filterMap_nil, Token.ofKind?, List.cons_append] using he
  | _, _, _, .call name h, .call hf harg, hrem => .primary fun stack _ => by
    have hc := converts_of_derivesAll h rfl harg fun hmem =>
      hrem (List.mem_cons_of_mem _ (List.mem_cons_of_mem _ (List.mem_append_left _ hmem)))
    obtain ⟨items, he, rfl⟩ := hc.group (.function _ :: stack)
    have hall := (emits_function stack hf).append he
    simpa [Token.ofKind?, postorder, postorders, hf, closeGroup] using hall

theorem converts_of_derivesAll : ∀ {ks : List Token.Kind} {ts : List Tree}, DerivesAll ks ts →
    ∀ {t : Tree}, ts = [t] → Shared registry t → .operator .rem ∉ ks → Converts .sum ks t
  | _, _, .one h, _, rfl, ht, hrem => converts_of_derives h ht hrem
  | _, _, .more _ hs, _, rfl, _, _ => nomatch hs

end

/-- The program of a complete expression is its tree in post-order. -/
theorem convert_of_derives {ks : List Token.Kind} {t : Tree} (h : Derives .sum ks t) (ht : Shared registry t)
    (hrem : .operator .rem ∉ ks) : convert registry [] (ks.filterMap Token.ofKind?) = .ok (postorder registry t) := by
  obtain ⟨items, pending, he, hp, -⟩ := converts_of_derives h ht hrem [] trivial
  have hend := he []
  rw [List.append_nil, List.append_nil, convert, filterMap_item?] at hend
  rw [hend, ← hp]
  rfl

end Reckon.Legacy
