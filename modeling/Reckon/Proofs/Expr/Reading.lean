import Reckon.Expr.Parser
import Reckon.Proofs.Token.Content
/-!
# What the parser's functions give

For each function that reads from a cursor, when it gives a result and where it stops then. Later proofs about
readings use these and do not open the functions again.
-/

namespace Reckon

namespace Reading

variable {c : Cursor} {α β : Type}

/-- The reading has not failed: it gives `a` and stops at `d`. -/
def Gives (r : Reading c α) (a : α) (d : Cursor) : Prop := r.outcome = .ok a ∧ r.cursor = d

theorem bind_gives {r : Reading c α} {next : α → (d : Cursor) → d.remaining ≤ c.remaining → Reading d β}
    {b : β} {d : Cursor} :
    (r.bind next).Gives b d ↔ ∃ a m, r.Gives a m ∧ ∃ h, (next a m h).Gives b d := by
  constructor
  · rintro ⟨ho, hc⟩
    cases h : r.outcome with
    | error e => rw [bind_of_error h] at ho; cases ho
    | ok a =>
      have hb := @bind_of_ok _ _ _ _ next _ h
      exact ⟨a, r.cursor, ⟨h, rfl⟩, r.remaining_le, hb.1 ▸ ho, hb.2 ▸ hc⟩
  · rintro ⟨a, m, ⟨ha, rfl⟩, _, ho, hc⟩
    have hb := @bind_of_ok _ _ _ _ next _ ha
    exact ⟨hb.1.trans ho, hb.2.trans hc⟩

/-- Both readings have the same outcome and stop at the same place. -/
def Agrees {d : Cursor} (r : Reading c α) (s : Reading d α) : Prop := r.outcome = s.outcome ∧ r.cursor = s.cursor

theorem Agrees.trans {d e : Cursor} {r : Reading c α} {s : Reading d α} {t : Reading e α} (h : r.Agrees s)
    (h' : s.Agrees t) : r.Agrees t :=
  ⟨h.1.trans h'.1, h.2.trans h'.2⟩

theorem Agrees.gives {d m : Cursor} {r : Reading c α} {s : Reading d α} {a : α} (h : r.Agrees s) (hs : s.Gives a m) :
    r.Gives a m :=
  ⟨h.1.trans hs.1, h.2.trans hs.2⟩

theorem bind_agrees {r : Reading c α} {next : α → (d : Cursor) → d.remaining ≤ c.remaining → Reading d β} {a : α}
    {m : Cursor} (h : r.Gives a m) : (r.bind next).Agrees (next a m (h.2 ▸ r.remaining_le)) := by
  obtain ⟨ho, rfl⟩ := h
  exact bind_of_ok ho

end Reading

namespace Cursor

open Reading

variable {α : Type} {c d : Cursor}

/-! ## The basic readings -/

@[simp] theorem give_gives {a b : α} : (c.give a).Gives b d ↔ a = b ∧ c = d := by simp [give, Gives]

@[simp] theorem take_gives {a b : α} : (c.take a).Gives b d ↔ a = b ∧ c.advance = d := by simp [take, Gives]

@[simp] theorem fail_gives {k : ParseError.Kind} {a : α} : ¬(c.fail k : Reading c α).Gives a d := by
  simp [fail, Gives]

@[simp] theorem skip_gives {r : Reading c.advance α} {a : α} : (c.skip r).Gives a d ↔ r.Gives a d := Iff.rfl

theorem readClosing_gives {opening s : Span} :
    (c.readClosing opening).Gives s d ↔ c.kind = .rightParen ∧ c.current.span = s ∧ c.advance = d := by
  unfold readClosing
  split
  · next h => simp [h]
  · next h => simp [show c.kind ≠ .rightParen from h]

/-! ## Operators and operands -/

theorem readExpr_gives {least : Nat} {e : Expr} :
    (c.readExpr least).Gives e d ↔ ∃ left m, c.readOperand.Gives left m ∧ (m.readOperators least left).Gives e d := by
  rw [readExpr, bind_gives]
  constructor
  · rintro ⟨left, m, h, -, h'⟩
    exact ⟨left, m, h, h'⟩
  · rintro ⟨left, m, h, h'⟩
    exact ⟨left, m, h, h.2 ▸ c.readOperand.remaining_le, h'⟩

/-- Behind the operand the operators decide. -/
theorem readExpr_agrees {least : Nat} {left : Expr} {m : Cursor} (h : c.readOperand.Gives left m) :
    (c.readExpr least).Agrees (m.readOperators least left) := by
  rw [readExpr]
  exact bind_agrees h

/-- Behind the right operand of an operator that binds tightly enough the further operators decide. -/
theorem readOperators_agrees {least : Nat} {left right : Expr} {op : Operator} {m : Cursor} (hk : c.kind = .operator op)
    (hp : least ≤ op.precedence) (h : (c.advance.readExpr op.rightPrecedence).Gives right m) :
    (c.readOperators least left).Agrees (m.readOperators least (.joined op left right)) := by
  rw [readOperators]
  split
  · next op' h' =>
    obtain rfl : op' = op := by simpa [h'] using hk
    rw [if_neg (Nat.not_lt.2 hp)]
    exact bind_agrees h
  · next h' => exact absurd hk (h' op)

/-- An operator that binds tightly enough is read with its right operand. -/
theorem readOperators_gives_of_le {least : Nat} {left e : Expr} {op : Operator} (hk : c.kind = .operator op)
    (hp : least ≤ op.precedence) :
    (c.readOperators least left).Gives e d ↔ ∃ right m, (c.advance.readExpr op.rightPrecedence).Gives right m ∧
      (m.readOperators least (.joined op left right)).Gives e d := by
  rw [readOperators]
  split
  · next op' h =>
    obtain rfl : op' = op := by simpa [h] using hk
    rw [if_neg (Nat.not_lt.2 hp), skip_gives, bind_gives]
    constructor
    · rintro ⟨right, m, h1, -, h2⟩
      exact ⟨right, m, h1, h2⟩
    · rintro ⟨right, m, h1, h2⟩
      exact ⟨right, m, h1, h1.2 ▸ (c.advance.readExpr _).remaining_le, h2⟩
  · next h => exact absurd hk (h op)

/-- Before anything else the reading of operators stops. -/
theorem readOperators_gives_of_lt {least : Nat} {left e : Expr}
    (hp : ∀ op, c.kind = .operator op → op.precedence < least) :
    (c.readOperators least left).Gives e d ↔ left = e ∧ c = d := by
  rw [readOperators]
  split
  · next op h => rw [if_pos (hp op h), give_gives]
  · exact give_gives

theorem readOperand_gives_integer {v : Float} {e : Expr} (h : c.kind = .integer v) :
    c.readOperand.Gives e d ↔ Expr.number v c.current.span = e ∧ c.advance = d := by
  rw [readOperand]
  split <;> simp_all

theorem readOperand_gives_decimal {v : Float} {e : Expr} (h : c.kind = .decimal v) :
    c.readOperand.Gives e d ↔ Expr.number v c.current.span = e ∧ c.advance = d := by
  rw [readOperand]
  split <;> simp_all

theorem readOperand_gives_constant {name : String} {v : Float} {e : Expr} (h : c.kind = .constant name v) :
    c.readOperand.Gives e d ↔ Expr.constant name v c.current.span = e ∧ c.advance = d := by
  rw [readOperand]
  split <;> simp_all

theorem readOperand_gives_function {name : String} {e : Expr} (h : c.kind = .function name) :
    c.readOperand.Gives e d ↔ (c.advance.readCall name c.current.span).Gives e d := by
  rw [readOperand]
  split <;> simp_all

theorem readOperand_gives_leftParen {e : Expr} (h : c.kind = .leftParen) :
    c.readOperand.Gives e d ↔ ∃ inner m, (c.advance.readExpr 0).Gives inner m ∧ m.kind = .rightParen ∧
      inner.withSpan (c.current.span.merge m.current.span) = e ∧ m.advance = d := by
  rw [readOperand]
  split <;> simp_all only [reduceCtorEq, skip_gives, bind_gives, give_gives, readClosing_gives]
  constructor
  · rintro ⟨inner, m, h1, -, s, m', ⟨h2, rfl, rfl⟩, -, rfl, rfl⟩
    exact ⟨inner, m, h1, h2, rfl, rfl⟩
  · rintro ⟨inner, m, h1, h2, rfl, rfl⟩
    exact ⟨inner, m, h1, h1.2 ▸ (c.advance.readExpr 0).remaining_le, m.current.span, m.advance, ⟨h2, rfl, rfl⟩,
      m.remaining_advance_le, rfl, rfl⟩

theorem readOperand_gives_sub {e : Expr} (h : c.kind = .operator .sub) :
    c.readOperand.Gives e d ↔
      ∃ operand, c.advance.readOperand.Gives operand d ∧ Expr.negated c.current.span operand = e := by
  rw [readOperand]
  split <;> simp_all only [reduceCtorEq, Token.Kind.operator.injEq, skip_gives, bind_gives, give_gives]
  · constructor
    · rintro ⟨operand, m, h1, -, rfl, rfl⟩
      exact ⟨operand, h1, rfl⟩
    · rintro ⟨operand, h1, rfl⟩
      exact ⟨operand, d, h1, h1.2 ▸ c.advance.readOperand.remaining_le, rfl, rfl⟩
  · simp_all

/-- No other token begins an operand. -/
theorem not_readOperand_gives {e : Expr}
    (h : c.kind = .eof ∨ c.kind = .rightParen ∨ c.kind = .comma ∨ ∃ op, op ≠ .sub ∧ c.kind = .operator op) :
    ¬c.readOperand.Gives e d := by
  rw [readOperand]
  split <;> simp_all

/-! ## Calls -/

theorem readCall_gives {name : String} {start : Span} {e : Expr} :
    (c.readCall name start).Gives e d ↔ c.kind = .leftParen ∧ ∃ args m, c.advance.readArguments.Gives args m ∧
      m.kind = .rightParen ∧ Expr.call name args (start.merge m.current.span) = e ∧ m.advance = d := by
  rw [readCall]
  split
  · next h =>
    simp only [h, skip_gives, bind_gives, give_gives, readClosing_gives, true_and]
    constructor
    · rintro ⟨args, m, h1, -, s, m', ⟨h2, rfl, rfl⟩, -, rfl, rfl⟩
      exact ⟨args, m, h1, h2, rfl, rfl⟩
    · rintro ⟨args, m, h1, h2, rfl, rfl⟩
      exact ⟨args, m, h1, h1.2 ▸ c.advance.readArguments.remaining_le, m.current.span, m.advance, ⟨h2, rfl, rfl⟩,
        m.remaining_advance_le, rfl, rfl⟩
  · next h => simp [show c.kind ≠ .leftParen from h]

theorem readArguments_gives_nil {args : List Expr} (h : c.kind = .rightParen) :
    c.readArguments.Gives args d ↔ [] = args ∧ c = d := by
  rw [readArguments]
  split <;> simp_all

theorem readArguments_gives_list {args : List Expr} (h : c.kind ≠ .rightParen) :
    c.readArguments.Gives args d ↔ c.readArgumentList.Gives args d := by
  rw [readArguments]
  split <;> simp_all

theorem readArgumentList_gives {args : List Expr} :
    c.readArgumentList.Gives args d ↔ ∃ arg m, (c.readExpr 0).Gives arg m ∧
      ((m.kind = .comma ∧ ∃ more, m.advance.readArgumentList.Gives more d ∧ arg :: more = args) ∨
        (m.kind ≠ .comma ∧ [arg] = args ∧ m = d)) := by
  rw [readArgumentList, bind_gives]
  constructor
  · rintro ⟨arg, m, h1, -, h2⟩
    refine ⟨arg, m, h1, ?_⟩
    split at h2
    · next hk =>
      rw [skip_gives, bind_gives] at h2
      obtain ⟨more, m', h3, -, h4⟩ := h2
      obtain ⟨rfl, rfl⟩ := give_gives.1 h4
      exact .inl ⟨hk, more, h3, rfl⟩
    · next hk => exact .inr ⟨hk, give_gives.1 h2⟩
  · rintro ⟨arg, m, h1, h2⟩
    refine ⟨arg, m, h1, h1.2 ▸ (c.readExpr 0).remaining_le, ?_⟩
    rcases h2 with ⟨hk, more, h3, rfl⟩ | ⟨hk, rfl, rfl⟩
    · split
      · rw [skip_gives, bind_gives]
        exact ⟨more, d, h3, h3.2 ▸ m.advance.readArgumentList.remaining_le, give_gives.2 ⟨rfl, rfl⟩⟩
      · next hn => exact absurd hk hn
    · split
      · next hc => exact absurd hc hk
      · exact give_gives.2 ⟨rfl, rfl⟩

/-! ## Complete expressions -/

theorem readComplete_gives {e : Expr} :
    c.readComplete.Gives e d ↔ (c.readExpr 0).Gives e d ∧ d.isAtEnd = true := by
  rw [readComplete, bind_gives]
  constructor
  · rintro ⟨e', m, h1, -, h2⟩
    split at h2
    · next hm =>
      obtain ⟨rfl, rfl⟩ := give_gives.1 h2
      exact ⟨h1, hm⟩
    · exact absurd h2 fail_gives
  · rintro ⟨h1, h2⟩
    refine ⟨e, d, h1, h1.2 ▸ (c.readExpr 0).remaining_le, ?_⟩
    rw [if_pos h2]
    exact give_gives.2 ⟨rfl, rfl⟩

end Cursor

end Reckon
