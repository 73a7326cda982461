import Mathlib.Logic.Relation
import Reckon.Proofs.Expr.Failing
/-!
# Reading move by move

The functions of the parser call each other, and what they give is told by their results. A `Reader` reads without
calls: it keeps on a stack what waits for an expression, and makes one move at a time. Nothing in a move says that
there will be a last one. There always is: each move lowers the rank of the reader, in which a token ahead counts five
(`advance_rank_lt`). And what a reader ends with is what the parser's functions give (`leads_readExpr`), so no loop of
theirs goes on forever.
-/

namespace Reckon

/-! ## Readers -/

/-- What waits for an expression. -/
inductive Reader.Frame where
  /-- The operators behind it. -/
  | operators (least : Nat)
  /-- An operator that it is the right operand of, with the left one. -/
  | joined (least : Nat) (op : Operator) (left : Expr)
  | group (opening : Span)
  | sign (span : Span)
  /-- A call that it is an argument of, with the arguments before it. -/
  | argument (name : String) (start opening : Span) (before : List Expr)

/-- What a reader is about to do. -/
inductive Reader.Task where
  | expr (least : Nat)
  | operators (least : Nat) (left : Expr)
  | operand
  | call (name : String) (start : Span)
  | arguments (name : String) (start opening : Span)
  /-- It takes the parenthesis behind all arguments. -/
  | close (name : String) (start opening : Span) (args : List Expr)
  /-- It hands an expression over to what waits for it. -/
  | give (e : Expr)
  | fail (error : ParseError)

/-- A reader: what is to be done, where it stands, and what waits. -/
structure Reader where
  task : Reader.Task
  cursor : Cursor
  stack : List Reader.Frame

namespace Reader

/-- Hands an expression over to what waits for it first. -/
def Frame.resume (frame : Frame) (e : Expr) (c : Cursor) (stack : List Frame) : Reader :=
  match frame with
  | .operators least => ⟨.operators least e, c, stack⟩
  | .joined least op left => ⟨.operators least (.joined op left e), c, stack⟩
  | .group opening =>
    match c.kind with
    | .rightParen => ⟨.give (e.withSpan (opening.merge c.current.span)), c.advance, stack⟩
    | found => ⟨.fail (c.errorHere (.unclosed opening found)), c, stack⟩
  | .sign span => ⟨.give (.negated span e), c, stack⟩
  | .argument name start opening before =>
    match c.kind with
    | .comma => ⟨.expr 0, c.advance, .argument name start opening (before ++ [e]) :: stack⟩
    | _ => ⟨.close name start opening (before ++ [e]), c, stack⟩

/-- Takes the first token of an operand. -/
def beginOperand (c : Cursor) (stack : List Frame) : Reader :=
  match c.kind with
  | .integer v => ⟨.give (.number v c.current.span), c.advance, stack⟩
  | .decimal v => ⟨.give (.number v c.current.span), c.advance, stack⟩
  | .constant name v => ⟨.give (.constant name v c.current.span), c.advance, stack⟩
  | .function name => ⟨.call name c.current.span, c.advance, stack⟩
  | .leftParen => ⟨.expr 0, c.advance, .group c.current.span :: stack⟩
  | .operator .sub => ⟨.operand, c.advance, .sign c.current.span :: stack⟩
  | .operator op => ⟨.fail (c.errorHere (.unexpectedOperator op)), c, stack⟩
  | .eof => ⟨.fail (c.errorHere .unexpectedEof), c, stack⟩
  | .rightParen => ⟨.fail (c.errorHere (.unexpectedToken .rightParen)), c, stack⟩
  | .comma => ⟨.fail (c.errorHere (.unexpectedToken .comma)), c, stack⟩

/-- Makes one move, if there is one. -/
def advance (r : Reader) : Option Reader :=
  match r.task with
  | .expr least => some ⟨.operand, r.cursor, .operators least :: r.stack⟩
  | .operators least left =>
    match r.cursor.kind with
    | .operator op =>
      if op.precedence < least then some { r with task := .give left }
      else some ⟨.expr op.rightPrecedence, r.cursor.advance, .joined least op left :: r.stack⟩
    | _ => some { r with task := .give left }
  | .operand => some (beginOperand r.cursor r.stack)
  | .call name start =>
    match r.cursor.kind with
    | .leftParen => some ⟨.arguments name start r.cursor.current.span, r.cursor.advance, r.stack⟩
    | found => some { r with task := .fail (r.cursor.errorHere (.expectedOpening found)) }
  | .arguments name start opening =>
    match r.cursor.kind with
    | .rightParen => some { r with task := .close name start opening [] }
    | _ => some ⟨.expr 0, r.cursor, .argument name start opening [] :: r.stack⟩
  | .close name start opening args =>
    match r.cursor.kind with
    | .rightParen => some ⟨.give (.call name args (start.merge r.cursor.current.span)), r.cursor.advance, r.stack⟩
    | found => some { r with task := .fail (r.cursor.errorHere (.unclosed opening found)) }
  | .give e =>
    match r.stack with
    | [] => none
    | frame :: stack => some (frame.resume e r.cursor stack)
  | .fail _ => none

/-- From one reader to another by some moves. -/
def Reaches : Reader → Reader → Prop := Relation.ReflTransGen fun r r' => r.advance = some r'

/-- The reader after a number of moves, or after all that there are if they are fewer. -/
def after (r : Reader) : Nat → Reader
  | 0 => r
  | n + 1 => r.advance.elim r fun next => next.after n

variable {r r' : Reader} {c : Cursor} {stack : List Frame}

/-! ## There is a last move -/

/-- What is left to do in a task, apart from reading tokens. -/
def Task.rank : Task → Nat
  | .expr _ => 4
  | .operators _ _ => 2
  | .operand => 1
  | .call _ _ => 2
  | .arguments _ _ _ => 6
  | .close _ _ _ _ => 1
  | .give _ => 1
  | .fail _ => 0

/-- What is left to do when an expression is handed over. -/
def Frame.rank : Frame → Nat
  | .operators _ => 2
  | .joined _ _ _ => 2
  | .group _ => 0
  | .sign _ => 1
  | .argument _ _ _ _ => 1

/-- What is left to do for all that waits. -/
def load : List Frame → Nat
  | [] => 0
  | frame :: stack => frame.rank + load stack

/-- What is left to do in all. -/
def rank (r : Reader) : Nat := 5 * r.cursor.pieces.length + (r.task.rank + load r.stack)

/-- A move that takes no token goes on to less. -/
theorem rank_lt_of_stay {task task' : Task} {stack' : List Frame} (h : task'.rank + load stack' < task.rank + load stack) :
    rank ⟨task', c, stack'⟩ < rank ⟨task, c, stack⟩ :=
  Nat.add_lt_add_left h _

/-- A move that takes a token may go on to more, by up to four. -/
theorem rank_lt_of_take {task task' : Task} {stack' : List Frame} {k : Token.Kind} (hk : c.kind = k) (hne : k ≠ .eof)
    (h : task'.rank + load stack' ≤ task.rank + load stack + 4) :
    rank ⟨task', c.advance, stack'⟩ < rank ⟨task, c, stack⟩ := by
  have hlength : c.pieces.length = c.advance.pieces.length + 1 := by
    rw [Cursor.pieces_eq_cons hk hne, List.length_cons]
  simp only [rank]
  omega

theorem rank_beginOperand_lt (c : Cursor) (stack : List Frame) : (beginOperand c stack).rank < rank ⟨.operand, c, stack⟩ := by
  unfold beginOperand
  split
  case h_1 hk | h_2 hk | h_3 hk | h_4 hk | h_5 hk | h_6 hk =>
    refine rank_lt_of_take hk (by simp) ?_
    simp only [Task.rank, load, Frame.rank]
    omega
  all_goals
    refine rank_lt_of_stay ?_
    simp only [Task.rank]
    omega

theorem rank_resume_lt (frame : Frame) (e : Expr) (c : Cursor) (stack : List Frame) :
    (frame.resume e c stack).rank < rank ⟨.give e, c, frame :: stack⟩ := by
  cases frame with
  | operators least | joined least op left | sign span =>
    refine rank_lt_of_stay ?_
    simp only [Task.rank, load, Frame.rank]
    omega
  | group opening =>
    rw [Frame.resume]
    split
    · next hk =>
      refine rank_lt_of_take hk (by simp) ?_
      simp only [Task.rank, load, Frame.rank]
      omega
    · refine rank_lt_of_stay ?_
      simp only [Task.rank, load, Frame.rank]
      omega
  | argument name start opening before =>
    rw [Frame.resume]
    split
    · next hk =>
      refine rank_lt_of_take hk (by simp) ?_
      simp only [Task.rank, load, Frame.rank]
      omega
    · refine rank_lt_of_stay ?_
      simp only [Task.rank, load, Frame.rank]
      omega

/-- Every move leaves less to do. -/
theorem advance_rank_lt (h : r.advance = some r') : r'.rank < r.rank := by
  obtain ⟨task, c, stack⟩ := r
  cases task with
  | expr least =>
    cases h
    refine rank_lt_of_stay ?_
    simp only [Task.rank, load, Frame.rank]
    omega
  | operators least left =>
    simp only [advance] at h
    split at h
    · next hk =>
      split at h
      · cases h
        exact rank_lt_of_stay (by simp only [Task.rank]; omega)
      · cases h
        refine rank_lt_of_take hk (by simp) ?_
        simp only [Task.rank, load, Frame.rank]
        omega
    · cases h
      exact rank_lt_of_stay (by simp only [Task.rank]; omega)
  | operand =>
    cases h
    exact rank_beginOperand_lt c stack
  | call name start =>
    simp only [advance] at h
    split at h
    · next hk =>
      cases h
      exact rank_lt_of_take hk (by simp) (by simp only [Task.rank]; omega)
    · cases h
      exact rank_lt_of_stay (by simp only [Task.rank]; omega)
  | arguments name start opening =>
    simp only [advance] at h
    split at h
    · cases h
      exact rank_lt_of_stay (by simp only [Task.rank]; omega)
    · cases h
      refine rank_lt_of_stay ?_
      simp only [Task.rank, load, Frame.rank]
      omega
  | close name start opening args =>
    simp only [advance] at h
    split at h
    · next hk =>
      cases h
      exact rank_lt_of_take hk (by simp) (by simp only [Task.rank]; omega)
    · cases h
      exact rank_lt_of_stay (by simp only [Task.rank]; omega)
  | give e =>
    cases stack with
    | nil => cases h
    | cons frame stack =>
      cases h
      exact rank_resume_lt frame e c stack
  | fail error => cases h

/-- After as many moves as the rank says there are no more, wherever the reader began. -/
theorem advance_after (r : Reader) {n : Nat} (h : r.rank ≤ n) : (r.after n).advance = none := by
  induction n generalizing r with
  | zero =>
    cases hr : r.advance with
    | none => exact hr
    | some r' =>
      have hlt := advance_rank_lt hr
      omega
  | succ n ih =>
    rw [after]
    cases hr : r.advance with
    | none => exact hr
    | some r' =>
      have hlt := advance_rank_lt hr
      exact ih r' (by omega)

/-- Where moves lead to a reader that has no more, enough of them do. -/
theorem Reaches.after_eq (h : r.Reaches r') (hend : r'.advance = none) {n : Nat} (hn : r.rank ≤ n) : r.after n = r' := by
  induction h using Relation.ReflTransGen.head_induction_on generalizing n with
  | refl =>
    cases n with
    | zero => rfl
    | succ n => rw [after, hend, Option.elim_none]
  | head hmove _ ih =>
    have hlt := advance_rank_lt hmove
    obtain ⟨n, rfl⟩ := Nat.exists_eq_add_of_lt (Nat.lt_of_le_of_lt (Nat.zero_le _) (Nat.lt_of_lt_of_le hlt hn))
    rw [after, hmove, Option.elim_some]
    exact ih (by omega)

/-! ## Moves and readings -/

/-- The moves lead to where the reading does: on with what it gives, or to its error. -/
structure Leads (r : Reader) {α : Type} (s : Reading c α) (back : α → Cursor → Reader) : Prop where
  gives : ∀ a d, s.Gives a d → r.Reaches (back a d)
  fails : ∀ err d, s.FailsAt err d → ∃ stack, r.Reaches ⟨.fail err, d, stack⟩

namespace Leads

variable {α β : Type} {s : Reading c α} {back : α → Cursor → Reader} {back' : β → Cursor → Reader}

theorem head (hmove : r.advance = some r') (h : Leads r' s back) : Leads r s back where
  gives a d hg := .head hmove (h.gives a d hg)
  fails err d hf := (h.fails err d hf).imp fun _ => .head hmove

theorem bind {next : α → (d : Cursor) → d.remaining ≤ c.remaining → Reading d β} (h : Leads r s back)
    (hnext : ∀ a d hd, Leads (back a d) (next a d hd) back') : Leads r (s.bind next) back' where
  gives b d hg := by
    obtain ⟨a, m, ha, hm, hb⟩ := Reading.bind_gives.1 hg
    exact (h.gives a m ha).trans ((hnext a m hm).gives b d hb)
  fails err d hf := by
    rcases Reading.bind_failsAt.1 hf with hf | ⟨a, m, ha, hm, hf⟩
    · exact h.fails err d hf
    · exact ((hnext a m hm).fails err d hf).imp fun _ => (h.gives a m ha).trans

theorem skip {s : Reading c.advance α} (h : Leads r s back) : Leads r (c.skip s) back := ⟨h.gives, h.fails⟩

theorem give (a : α) : Leads (back a c) (c.give a) back where
  gives b d hg := by
    obtain ⟨rfl, rfl⟩ := Cursor.give_gives.1 hg
    exact .refl
  fails err d hf := absurd hf Cursor.not_give_failsAt

theorem take {a : α} (hmove : r.advance = some (back a c.advance)) : Leads r (c.take a) back where
  gives b d hg := by
    obtain ⟨rfl, rfl⟩ := Cursor.take_gives.1 hg
    exact .single hmove
  fails err d hf := absurd hf Cursor.not_take_failsAt

theorem fail {k : ParseError.Kind} (stack : List Frame) (hmove : r.advance = some ⟨.fail (c.errorHere k), c, stack⟩) :
    Leads r (c.fail k) back where
  gives b d hg := absurd hg Cursor.fail_gives
  fails err d hf := by
    obtain ⟨rfl, rfl⟩ := Cursor.fail_failsAt.1 hf
    exact ⟨stack, .single hmove⟩

end Leads

/-- The expression is handed over to what waits. -/
def giving (stack : List Frame) (e : Expr) (c : Cursor) : Reader := ⟨.give e, c, stack⟩

/-- Behind further arguments the call is closed. -/
def closing (name : String) (start opening : Span) (before : List Expr) (stack : List Frame) (args : List Expr)
    (c : Cursor) : Reader :=
  ⟨.close name start opening (before ++ args), c, stack⟩

/-- A move takes the closing parenthesis, or fails if there is none. -/
theorem leads_readClosing {opening : Span} {f : Span → Expr}
    (hclose : c.kind = .rightParen → r.advance = some (giving stack (f c.current.span) c.advance))
    (hfail : c.kind ≠ .rightParen → r.advance = some ⟨.fail (c.errorHere (.unclosed opening c.kind)), c, stack⟩) :
    Leads r ((c.readClosing opening).bind fun closing d _ => d.give (f closing)) (giving stack) where
  gives e d hg := by
    obtain ⟨closing, m, hread, -, he⟩ := Reading.bind_gives.1 hg
    obtain ⟨hk, rfl, rfl⟩ := Cursor.readClosing_gives.1 hread
    obtain ⟨rfl, rfl⟩ := Cursor.give_gives.1 he
    exact .single (hclose hk)
  fails err d hf := by
    rcases Reading.bind_failsAt.1 hf with hread | ⟨_, _, _, _, he⟩
    · obtain ⟨hk, rfl, rfl⟩ := Cursor.readClosing_failsAt.1 hread
      exact ⟨stack, .single (hfail hk)⟩
    · exact absurd he Cursor.not_give_failsAt

/-! ## Readings move by move -/

mutual

theorem leads_readExpr (c : Cursor) (least : Nat) (stack : List Frame) :
    Leads ⟨.expr least, c, stack⟩ (c.readExpr least) (giving stack) := by
  rw [Cursor.readExpr]
  exact .head rfl (.bind (leads_readOperand c _) fun left d hd => .head rfl (leads_readOperators d least left stack))
  termination_by 5 * c.remaining + 2
  decreasing_by all_goals omega

theorem leads_readOperators (c : Cursor) (least : Nat) (left : Expr) (stack : List Frame) :
    Leads ⟨.operators least left, c, stack⟩ (c.readOperators least left) (giving stack) := by
  rw [Cursor.readOperators]
  split
  · next op hk =>
    split
    · next hp => exact .head (by simp only [advance, hk, if_pos hp]; rfl) (.give left)
    · next hp =>
      have hlt := Cursor.remaining_advance_lt (c := c) (by simp [hk])
      have hmove : advance ⟨.operators least left, c, stack⟩ =
          some ⟨.expr op.rightPrecedence, c.advance, .joined least op left :: stack⟩ := by
        simp only [advance, hk, if_neg hp]
      exact .head hmove (.skip (.bind (leads_readExpr _ _ _) fun right d hd =>
        .head rfl (leads_readOperators d least _ stack)))
  · exact .head (by simp only [advance]; rfl) (.give left)
  termination_by 5 * c.remaining + 1
  decreasing_by all_goals omega

theorem leads_readOperand (c : Cursor) (stack : List Frame) : Leads ⟨.operand, c, stack⟩ c.readOperand (giving stack) := by
  have hmove : advance ⟨.operand, c, stack⟩ = some (beginOperand c stack) := rfl
  unfold beginOperand at hmove
  rw [Cursor.readOperand]
  split <;> rename_i hk <;> simp only [hk] at hmove
  · exact .take hmove
  · exact .take hmove
  · exact .take hmove
  · have hlt := Cursor.remaining_advance_lt (c := c) (by simp [hk])
    exact .head hmove (.skip (leads_readCall c.advance _ _ stack))
  · have hlt := Cursor.remaining_advance_lt (c := c) (by simp [hk])
    refine .head hmove (.skip (.bind (leads_readExpr c.advance 0 _) fun inner d hd => leads_readClosing ?_ ?_))
    · intro hclose
      simp only [giving, advance, Frame.resume, hclose]
    · intro hclose
      simp only [giving, advance, Frame.resume]
  · have hlt := Cursor.remaining_advance_lt (c := c) (by simp [hk])
    refine .head hmove (.skip (.bind (leads_readOperand c.advance _) fun operand d hd => ?_))
    have hgive : advance (giving (.sign c.current.span :: stack) operand d) =
        some (giving stack (.negated c.current.span operand) d) := rfl
    exact .head hgive (.give _)
  · exact .fail stack hmove
  · exact .fail stack hmove
  · exact .fail stack hmove
  · exact .fail stack hmove
  termination_by 5 * c.remaining + 0
  decreasing_by all_goals omega

theorem leads_readCall (c : Cursor) (name : String) (start : Span) (stack : List Frame) :
    Leads ⟨.call name start, c, stack⟩ (c.readCall name start) (giving stack) := by
  rw [Cursor.readCall]
  split
  · next hk =>
    have hlt := Cursor.remaining_advance_lt (c := c) (by simp [hk])
    have hmove : advance ⟨.call name start, c, stack⟩ = some ⟨.arguments name start c.current.span, c.advance, stack⟩ := by
      simp only [advance, hk]
    refine .head hmove (.skip (.bind (leads_readArguments c.advance name start _ stack) fun args d hd =>
      leads_readClosing ?_ ?_))
    · intro hclose
      simp only [closing, giving, advance, hclose, List.nil_append]
    · intro hclose
      simp only [closing, advance]
  · exact .fail stack (by simp only [advance])
  termination_by 5 * c.remaining + 1
  decreasing_by all_goals omega

theorem leads_readArguments (c : Cursor) (name : String) (start opening : Span) (stack : List Frame) :
    Leads ⟨.arguments name start opening, c, stack⟩ c.readArguments (closing name start opening [] stack) := by
  rw [Cursor.readArguments]
  split
  · next hk => exact .head (by simp only [advance, hk]; rfl) (.give [])
  · exact .head (by simp only [advance]) (leads_readArgumentList c name start opening [] stack)
  termination_by 5 * c.remaining + 4
  decreasing_by all_goals omega

theorem leads_readArgumentList (c : Cursor) (name : String) (start opening : Span) (before : List Expr) (stack : List Frame) :
    Leads ⟨.expr 0, c, .argument name start opening before :: stack⟩ c.readArgumentList
      (closing name start opening before stack) := by
  rw [Cursor.readArgumentList]
  refine .bind (leads_readExpr c 0 _) fun arg d hd => ?_
  split
  · next hk =>
    have hlt := Cursor.remaining_advance_lt (c := d) (by simp [hk])
    have hmove : advance (giving (.argument name start opening before :: stack) arg d) =
        some ⟨.expr 0, d.advance, .argument name start opening (before ++ [arg]) :: stack⟩ := by
      simp only [giving, advance, Frame.resume, hk]
    have hmore := leads_readArgumentList d.advance name start opening (before ++ [arg]) stack
    refine .head hmove (.skip (.bind hmore fun args e he => ?_))
    have hback : closing name start opening (before ++ [arg]) stack args e =
        closing name start opening before stack (arg :: args) e := by
      rw [closing, closing, List.append_assoc, List.singleton_append]
    rw [hback]
    exact .give (arg :: args)
  · refine .head ?_ (.give [arg])
    simp only [giving, advance, Frame.resume, closing]
  termination_by 5 * c.remaining + 3
  decreasing_by all_goals omega

end

/-! ## The end of a reading -/

/-- The reader has come to its end, and to what the reading gives. -/
structure Ended (r : Reader) (s : Reading c Expr) : Prop where
  last : r.advance = none
  cursor : r.cursor = s.cursor
  gives : ∀ e, s.outcome = .ok e → r.task = .give e
  fails : ∀ err, s.outcome = .error err → r.task = .fail err

theorem Leads.ended {s : Reading c Expr} (h : Leads r s (giving [])) {n : Nat} (hn : r.rank ≤ n) : (r.after n).Ended s := by
  cases ho : s.outcome with
  | ok e =>
    have hlast := (h.gives e s.cursor ⟨ho, rfl⟩).after_eq rfl hn
    refine ⟨advance_after r hn, by rw [hlast]; rfl, fun e' he => ?_, fun err he => ?_⟩
    · rw [ho] at he
      cases he
      rw [hlast]
      rfl
    · rw [ho] at he
      cases he
  | error err =>
    obtain ⟨stack, hreaches⟩ := h.fails err s.cursor ⟨ho, rfl⟩
    have hlast := hreaches.after_eq rfl hn
    refine ⟨advance_after r hn, by rw [hlast], fun e he => ?_, fun err' he => ?_⟩
    · rw [ho] at he
      cases he
    · rw [ho] at he
      cases he
      rw [hlast]

end Reader

end Reckon
