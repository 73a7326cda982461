import Reckon.Proofs.Expr.Reading
/-!
# Where the parser's functions fail

For each function that reads from a cursor, when it fails, where it stops then and with which error. Together with
what the functions give this says all about them.
-/

namespace Reckon

/-- Why a token does not begin an operand, unless it does. -/
def Token.Kind.refusal? : Token.Kind → Option ParseError.Kind
  | operator .sub => none
  | operator op => some (.unexpectedOperator op)
  | eof => some .unexpectedEof
  | rightParen => some (.unexpectedToken .rightParen)
  | comma => some (.unexpectedToken .comma)
  | _ => none

namespace Reading

variable {c : Cursor} {α β : Type}

/-- The reading has failed with the error `e`, at `d`. -/
def FailsAt (r : Reading c α) (e : ParseError) (d : Cursor) : Prop := r.outcome = .error e ∧ r.cursor = d

theorem bind_failsAt {r : Reading c α} {next : α → (d : Cursor) → d.remaining ≤ c.remaining → Reading d β}
    {e : ParseError} {d : Cursor} :
    (r.bind next).FailsAt e d ↔ r.FailsAt e d ∨ ∃ a m, r.Gives a m ∧ ∃ h, (next a m h).FailsAt e d := by
  constructor
  · rintro ⟨ho, hc⟩
    cases h : r.outcome with
    | error e' =>
      rw [bind_of_error h] at ho hc
      cases ho
      exact .inl ⟨h, hc⟩
    | ok a =>
      have hb : (r.bind next).Agrees (next a r.cursor _) := bind_agrees ⟨h, rfl⟩
      exact .inr ⟨a, r.cursor, ⟨h, rfl⟩, r.remaining_le, hb.1 ▸ ho, hb.2 ▸ hc⟩
  · rintro (⟨ho, hc⟩ | ⟨a, m, hg, _, ho, hc⟩)
    · rw [bind_of_error ho]
      exact ⟨rfl, hc⟩
    · have hb : (r.bind next).Agrees (next a m _) := bind_agrees hg
      exact ⟨hb.1.trans ho, hb.2.trans hc⟩

end Reading

namespace Cursor

open Reading

variable {α : Type} {c d : Cursor} {err : ParseError}

/-- The error of a kind at the current token. -/
def errorHere (c : Cursor) (kind : ParseError.Kind) : ParseError := ⟨kind, c.current.span, c.current.location⟩

/-! ## The basic readings -/

@[simp] theorem not_give_failsAt {a : α} : ¬(c.give a).FailsAt err d := by simp [give, FailsAt]

@[simp] theorem not_take_failsAt {a : α} : ¬(c.take a).FailsAt err d := by simp [take, FailsAt]

@[simp] theorem fail_failsAt {k : ParseError.Kind} :
    (c.fail k : Reading c α).FailsAt err d ↔ c.errorHere k = err ∧ c = d := by
  simp [fail, FailsAt, errorHere]

@[simp] theorem skip_failsAt {r : Reading c.advance α} : (c.skip r).FailsAt err d ↔ r.FailsAt err d := Iff.rfl

theorem readClosing_failsAt {opening : Span} :
    (c.readClosing opening).FailsAt err d ↔ c.kind ≠ .rightParen ∧ c.errorHere (.unclosed opening c.kind) = err ∧ c = d := by
  unfold readClosing
  split
  · next h => simp [h]
  · next h => simp [show c.kind ≠ .rightParen from h]

/-! ## Operators and operands -/

theorem readExpr_failsAt {least : Nat} :
    (c.readExpr least).FailsAt err d ↔ c.readOperand.FailsAt err d ∨
      ∃ left m, c.readOperand.Gives left m ∧ (m.readOperators least left).FailsAt err d := by
  rw [readExpr, bind_failsAt]
  constructor
  · rintro (h | ⟨left, m, h, -, h'⟩)
    · exact .inl h
    · exact .inr ⟨left, m, h, h'⟩
  · rintro (h | ⟨left, m, h, h'⟩)
    · exact .inl h
    · exact .inr ⟨left, m, h, h.2 ▸ c.readOperand.remaining_le, h'⟩

theorem readOperators_failsAt_of_le {least : Nat} {left : Expr} {op : Operator} (hk : c.kind = .operator op)
    (hp : least ≤ op.precedence) :
    (c.readOperators least left).FailsAt err d ↔ (c.advance.readExpr op.rightPrecedence).FailsAt err d ∨
      ∃ right m, (c.advance.readExpr op.rightPrecedence).Gives right m ∧
        (m.readOperators least (.joined op left right)).FailsAt err d := by
  rw [readOperators]
  split
  · next op' h =>
    obtain rfl : op' = op := by simpa [h] using hk
    rw [if_neg (Nat.not_lt.2 hp), skip_failsAt, bind_failsAt]
    constructor
    · rintro (h1 | ⟨right, m, h1, -, h2⟩)
      · exact .inl h1
      · exact .inr ⟨right, m, h1, h2⟩
    · rintro (h1 | ⟨right, m, h1, h2⟩)
      · exact .inl h1
      · exact .inr ⟨right, m, h1, h1.2 ▸ (c.advance.readExpr _).remaining_le, h2⟩
  · next h => exact absurd hk (h op)

theorem not_readOperators_failsAt_of_lt {least : Nat} {left : Expr}
    (hp : ∀ op, c.kind = .operator op → op.precedence < least) : ¬(c.readOperators least left).FailsAt err d := by
  rw [readOperators]
  split
  · next op h =>
    rw [if_pos (hp op h)]
    exact not_give_failsAt
  · exact not_give_failsAt

/-- Literals and constants are operands at once. -/
theorem not_readOperand_failsAt
    (h : (∃ v, c.kind = .integer v) ∨ (∃ v, c.kind = .decimal v) ∨ ∃ name v, c.kind = .constant name v) :
    ¬c.readOperand.FailsAt err d := by
  rw [readOperand]
  split <;> simp_all

theorem readOperand_failsAt_function {name : String} (h : c.kind = .function name) :
    c.readOperand.FailsAt err d ↔ (c.advance.readCall name c.current.span).FailsAt err d := by
  rw [readOperand]
  split <;> simp_all

theorem readOperand_failsAt_leftParen (h : c.kind = .leftParen) :
    c.readOperand.FailsAt err d ↔ (c.advance.readExpr 0).FailsAt err d ∨ ∃ inner, (c.advance.readExpr 0).Gives inner d ∧
      d.kind ≠ .rightParen ∧ d.errorHere (.unclosed c.current.span d.kind) = err := by
  rw [readOperand]
  split <;> simp_all only [reduceCtorEq, skip_failsAt, bind_failsAt, not_give_failsAt, readClosing_failsAt]
  constructor
  · rintro (h1 | ⟨inner, m, h1, -, ⟨h2, h3, rfl⟩ | ⟨_, _, _, _, h4⟩⟩)
    · exact .inl h1
    · exact .inr ⟨inner, h1, h2, h3⟩
    · exact h4.elim
  · rintro (h1 | ⟨inner, h1, h2, h3⟩)
    · exact .inl h1
    · exact .inr ⟨inner, d, h1, h1.2 ▸ (c.advance.readExpr 0).remaining_le, .inl ⟨h2, h3, rfl⟩⟩

theorem readOperand_failsAt_sub (h : c.kind = .operator .sub) :
    c.readOperand.FailsAt err d ↔ c.advance.readOperand.FailsAt err d := by
  rw [readOperand]
  split <;> simp_all [bind_failsAt]

theorem readOperand_failsAt_of_refusal {k : ParseError.Kind} (h : c.kind.refusal? = some k) :
    c.readOperand.FailsAt err d ↔ c.errorHere k = err ∧ c = d := by
  rw [readOperand]
  split <;> simp_all [Token.Kind.refusal?]

/-! ## Calls -/

theorem readCall_failsAt_of_ne {name : String} {start : Span} (h : c.kind ≠ .leftParen) :
    (c.readCall name start).FailsAt err d ↔ c.errorHere (.expectedOpening c.kind) = err ∧ c = d := by
  rw [readCall]
  split <;> simp_all

theorem readCall_failsAt {name : String} {start : Span} (h : c.kind = .leftParen) :
    (c.readCall name start).FailsAt err d ↔ c.advance.readArguments.FailsAt err d ∨
      ∃ args, c.advance.readArguments.Gives args d ∧ d.kind ≠ .rightParen ∧
        d.errorHere (.unclosed c.current.span d.kind) = err := by
  rw [readCall]
  split <;> simp_all only [skip_failsAt, bind_failsAt, not_give_failsAt, readClosing_failsAt]
  · constructor
    · rintro (h1 | ⟨args, m, h1, -, ⟨h2, h3, rfl⟩ | ⟨_, _, _, _, h4⟩⟩)
      · exact .inl h1
      · exact .inr ⟨args, h1, h2, h3⟩
      · exact h4.elim
    · rintro (h1 | ⟨args, h1, h2, h3⟩)
      · exact .inl h1
      · exact .inr ⟨args, d, h1, h1.2 ▸ c.advance.readArguments.remaining_le, .inl ⟨h2, h3, rfl⟩⟩
  · simp_all

theorem readArguments_failsAt :
    c.readArguments.FailsAt err d ↔ c.kind ≠ .rightParen ∧ c.readArgumentList.FailsAt err d := by
  rw [readArguments]
  split <;> simp_all

theorem readArgumentList_failsAt :
    c.readArgumentList.FailsAt err d ↔ (c.readExpr 0).FailsAt err d ∨
      ∃ arg m, (c.readExpr 0).Gives arg m ∧ m.kind = .comma ∧ m.advance.readArgumentList.FailsAt err d := by
  rw [readArgumentList, bind_failsAt]
  constructor
  · rintro (h1 | ⟨arg, m, h1, -, h2⟩)
    · exact .inl h1
    · split at h2
      · next hk =>
        rw [skip_failsAt, bind_failsAt] at h2
        rcases h2 with h2 | ⟨_, _, _, _, h3⟩
        · exact .inr ⟨arg, m, h1, hk, h2⟩
        · exact absurd h3 not_give_failsAt
      · exact absurd h2 not_give_failsAt
  · rintro (h1 | ⟨arg, m, h1, hk, h2⟩)
    · exact .inl h1
    · refine .inr ⟨arg, m, h1, h1.2 ▸ (c.readExpr 0).remaining_le, ?_⟩
      split
      · rw [skip_failsAt, bind_failsAt]
        exact .inl h2
      · next hn => exact absurd hk hn

/-! ## Complete expressions -/

theorem readComplete_failsAt :
    c.readComplete.FailsAt err d ↔ (c.readExpr 0).FailsAt err d ∨
      ∃ e, (c.readExpr 0).Gives e d ∧ d.kind ≠ .eof ∧ d.errorHere (.trailingInput d.kind) = err := by
  have hend (m : Cursor) : m.isAtEnd = true ↔ m.kind = .eof := Token.Kind.isEof_iff
  rw [readComplete, bind_failsAt]
  constructor
  · rintro (h1 | ⟨e, m, h1, -, h2⟩)
    · exact .inl h1
    · split at h2
      · exact absurd h2 not_give_failsAt
      · next hm =>
        obtain ⟨h3, rfl⟩ := fail_failsAt.1 h2
        exact .inr ⟨e, h1, fun he => hm ((hend m).2 he), h3⟩
  · rintro (h1 | ⟨e, h1, h2, h3⟩)
    · exact .inl h1
    · refine .inr ⟨e, d, h1, h1.2 ▸ (c.readExpr 0).remaining_le, ?_⟩
      rw [if_neg fun he => h2 ((hend d).1 he)]
      exact fail_failsAt.2 ⟨h3, rfl⟩

end Cursor

end Reckon
