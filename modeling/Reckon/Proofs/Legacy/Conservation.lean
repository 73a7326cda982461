import Reckon.Proofs.Legacy.Running
/-!
# What a program consists of

Items leave the stack at an operator, which releases some, at the end of a group, which releases what is in it and
then a function, and at the end of the tokens, which releases the rest. Whether the parentheses balance or not,
nothing is lost, doubled or invented on the way: the numbers never wait and keep their order, and the other items come
out once for each token that has one.
-/

namespace Reckon.Legacy

variable {r : Registry} {stack last : List Pending} {items : List Item} {t : Token} {tokens : List Token}

/-- The number of an item. -/
def Item.number? : Item → Option Float
  | number v => some v
  | operator _ => none
  | function _ => none

/-- The number of a token. -/
def Token.number? : Token → Option Float
  | number v => some v
  | symbol _ => none

/-- No number waits. -/
theorem numbers_of_pending (stack : List Pending) : (stack.filterMap Pending.item?).filterMap Item.number? = [] := by
  induction stack with
  | nil => rfl
  | cons p stack ih => cases p <;> exact ih

/-- A token puts its number into the program at once, and no other. -/
theorem Takes.numbers {rest : List Pending} (h : Takes r stack t items rest) :
    items.filterMap Item.number? = t.number?.toList := by
  cases h with
  | number v => rfl
  | function hf => rfl
  | @operator s op rest released hf hop hstack =>
    -- What goes has waited.
    rw [← filterMap_item?, numbers_of_pending]
    rfl
  | opening hf => rfl
  | closing hf =>
    have hnone := numbers_of_pending stack
    rw [← closeGroup_items, List.filterMap_append] at hnone
    exact (List.append_eq_nil_iff.1 hnone).1
  | nothing hf hop hs hs' => rfl

/-- The tokens that were taken have put their numbers into the program, in their order. -/
theorem takeAll_numbers (h : takeAll r stack tokens = .ok (items, last)) :
    items.filterMap Item.number? = tokens.filterMap Token.number? := by
  induction tokens generalizing stack items with
  | nil =>
    cases h
    rfl
  | cons t tokens ih =>
    obtain ⟨items', rest, more, hstep, hmore, rfl⟩ := takeAll_cons_eq_ok.1 h
    rw [List.filterMap_append, (takes_of_step hstep).numbers, ih hmore, List.filterMap_cons]
    cases t.number? <;> rfl

/-- A program has the numbers of its tokens in their order, and all its items are those of its tokens, as often as they
occur there: numbers, operators and functions of the registry. -/
theorem convert_conserves {program : List Item} (h : convert r [] tokens = .ok program) :
    program.filterMap Item.number? = tokens.filterMap Token.number? ∧
      program.Perm (tokens.filterMap (Token.item? r)) := by
  rw [convert_eq] at h
  cases htake : takeAll r [] tokens with
  | error e =>
    rw [htake] at h
    cases h
  | ok taken =>
    obtain ⟨items, last⟩ := taken
    rw [htake] at h
    cases h
    refine ⟨?_, ?_⟩
    · rw [List.filterMap_append, numbers_of_pending, List.append_nil, takeAll_numbers htake]
    · have hperm := takeAll_items_perm htake
      rwa [List.filterMap_nil, List.append_nil] at hperm

/-- Tokens with a group that is closed but not open, one that is open but not closed, and a name that is not known. -/
theorem convert_conserves_unbalanced :
    ∃ program, convert registry [] [.symbol ")", .symbol "sin", .number 1.5, .symbol "(", .symbol "foo", .number 2,
        .symbol "^", .symbol "cos"] = .ok program ∧
      program.filterMap Item.number? = [1.5, 2] ∧
      program.Perm ([.symbol ")", .symbol "sin", .number 1.5, .symbol "(", .symbol "foo", .number 2,
        .symbol "^", .symbol "cos"].filterMap (Token.item? registry)) := by
  have hconvert : convert registry [] [.symbol ")", .symbol "sin", .number 1.5, .symbol "(", .symbol "foo", .number 2,
      .symbol "^", .symbol "cos"] = .ok _ := rfl
  obtain ⟨hnumbers, hitems⟩ := convert_conserves hconvert
  exact ⟨_, hconvert, hnumbers, hitems⟩

end Reckon.Legacy
