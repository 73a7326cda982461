import Reckon.Diagnostic.Basic
import Reckon.Expr.Basic
import Reckon.Token.Cursor
/-!
# The parser

Reads expressions from a cursor by precedence climbing. An operand is a number, a constant, a call, an expression in
parentheses or a negated operand; operators join operands as long as they bind tightly enough. The sign of a negation
binds tighter than every operator. The first error stops the reading at the token where it arises.
-/

namespace Reckon

/-- Why tokens do not form an expression. -/
inductive ParseError.Kind where
  | unexpectedEof
  | unexpectedToken (found : Token.Kind)
  | unexpectedOperator (op : Operator)
  | expectedOpening (found : Token.Kind)
  | unclosed (opening : Span) (found : Token.Kind)
  | trailingInput (found : Token.Kind)
  deriving BEq, Repr

/-- The first place where tokens do not form an expression. -/
structure ParseError where
  kind : ParseError.Kind
  span : Span
  location : Location
  deriving BEq, Repr

namespace ParseError

/-- A token as messages show it. -/
def quote (found : Token.Kind) : String := if found.isEof then "end of input" else "`" ++ found.text ++ "`"

/-- What is wrong. -/
def Kind.message : Kind → String
  | unexpectedEof => "Unexpected end of input"
  | unexpectedToken found => "Unexpected token " ++ quote found
  | unexpectedOperator op => "Operator `" ++ op.symbol ++ "` is missing its left operand"
  | expectedOpening found => "Expected a `(` token, but got " ++ quote found
  | unclosed _ found => "Unclosed `(`: expected `)`, but got " ++ quote found
  | trailingInput .rightParen => "Unmatched `)`"
  | trailingInput found => "Unexpected " ++ quote found ++ " after a complete expression"

/-- What is wrong and where. -/
def message (e : ParseError) : String := e.kind.message ++ " at " ++ e.location.text

/-- The code of the error. -/
def code (e : ParseError) : Code :=
  match e.kind with
  | .unexpectedEof => .unexpectedEof
  | .unexpectedToken _ => .unexpectedToken
  | .unexpectedOperator _ => .unexpectedOperator
  | .expectedOpening _ => .missingToken
  | .unclosed _ _ => .missingToken
  | .trailingInput _ => .trailingInput

/-- The report of the error. -/
def diagnostic (e : ParseError) : Diagnostic :=
  let report := Diagnostic.ofLabel e.code e.kind.message e.span
  match e.kind with
  | .unexpectedEof => report "expected an expression" []
  | .unexpectedToken _ => report "expected an expression here" []
  | .unexpectedOperator op =>
    report "expected an operand before this"
      ["only `-` may start an expression; `" ++ op.symbol ++ "` needs a value on its left"]
  | .expectedOpening _ => report "expected `(`" []
  | .unclosed opening _ =>
    let d := report "expected `)`" []
    { d with labels := d.labels ++ [⟨opening, "unclosed delimiter opened here", false⟩] }
  | .trailingInput .rightParen => report "no matching `(`" []
  | .trailingInput _ =>
    report "expected an operator or end of input"
      ["juxtaposition is not multiplication; write `*` explicitly"]

end ParseError

/-- What reading from a cursor gives: an outcome, and a cursor that has not gone back. -/
structure Reading (c : Cursor) (α : Type) where
  outcome : Except ParseError α
  cursor : Cursor
  remaining_le : cursor.remaining ≤ c.remaining

namespace Reading

/-- Reads on where a reading has stopped, unless it has failed. -/
def bind {c : Cursor} {α β : Type} (r : Reading c α)
    (next : α → (d : Cursor) → d.remaining ≤ c.remaining → Reading d β) : Reading c β :=
  match r.outcome with
  | .error e => ⟨.error e, r.cursor, r.remaining_le⟩
  | .ok a =>
    let s := next a r.cursor r.remaining_le
    ⟨s.outcome, s.cursor, Nat.le_trans s.remaining_le r.remaining_le⟩

variable {c : Cursor} {α β : Type} {r : Reading c α}
  {next : α → (d : Cursor) → d.remaining ≤ c.remaining → Reading d β}

/-- A failed reading is not read on from. -/
theorem bind_of_error {e : ParseError} (h : r.outcome = .error e) :
    r.bind next = ⟨.error e, r.cursor, r.remaining_le⟩ := by
  obtain ⟨outcome, d, hd⟩ := r; subst h; rfl

/-- After a reading that has not failed, the next one decides. -/
theorem bind_of_ok {a : α} (h : r.outcome = .ok a) :
    (r.bind next).outcome = (next a r.cursor r.remaining_le).outcome ∧
      (r.bind next).cursor = (next a r.cursor r.remaining_le).cursor := by
  obtain ⟨outcome, d, hd⟩ := r; subst h; exact ⟨rfl, rfl⟩

end Reading

namespace Cursor

variable {α : Type}

/-- A reading that takes nothing. -/
def give (c : Cursor) (a : α) : Reading c α := ⟨.ok a, c, Nat.le_refl _⟩

/-- A reading that takes the current token. -/
def take (c : Cursor) (a : α) : Reading c α := ⟨.ok a, c.advance, c.remaining_advance_le⟩

/-- A reading that fails at the current token. -/
def fail (c : Cursor) (kind : ParseError.Kind) : Reading c α :=
  ⟨.error ⟨kind, c.current.span, c.current.location⟩, c, Nat.le_refl _⟩

/-- A reading that begins behind the current token. -/
def skip (c : Cursor) (r : Reading c.advance α) : Reading c α :=
  ⟨r.outcome, r.cursor, Nat.le_trans r.remaining_le c.remaining_advance_le⟩

/-- Reads the parenthesis that closes the one at `opening`, and gives its span. -/
def readClosing (c : Cursor) (opening : Span) : Reading c Span :=
  match c.kind with
  | .rightParen => c.take c.current.span
  | found => c.fail (.unclosed opening found)

mutual

/-- Reads an operand and the operators behind it that bind at least as tightly as `least`. -/
def readExpr (c : Cursor) (least : Nat) : Reading c Expr :=
  c.readOperand.bind fun left d _ => d.readOperators least left
  termination_by 5 * c.remaining + 2
  decreasing_by all_goals omega

/-- Reads the operators behind the operand `left` that bind at least as tightly as `least`. -/
def readOperators (c : Cursor) (least : Nat) (left : Expr) : Reading c Expr :=
  match h : c.kind with
  | .operator op =>
    if op.precedence < least then c.give left
    else
      have := remaining_advance_lt (c := c) (by simp [h])
      c.skip ((c.advance.readExpr op.rightPrecedence).bind fun right d _ =>
        d.readOperators least (.joined op left right))
  | _ => c.give left
  termination_by 5 * c.remaining + 1
  decreasing_by all_goals omega

/-- Reads one operand. -/
def readOperand (c : Cursor) : Reading c Expr :=
  match h : c.kind with
  | .integer v => c.take (.number v c.current.span)
  | .decimal v => c.take (.number v c.current.span)
  | .constant name v => c.take (.constant name v c.current.span)
  | .function name =>
    have := remaining_advance_lt (c := c) (by simp [h])
    c.skip (c.advance.readCall name c.current.span)
  | .leftParen =>
    have := remaining_advance_lt (c := c) (by simp [h])
    c.skip ((c.advance.readExpr 0).bind fun inner d _ =>
      (d.readClosing c.current.span).bind fun closing e _ =>
        e.give (inner.withSpan (c.current.span.merge closing)))
  | .operator .sub =>
    have := remaining_advance_lt (c := c) (by simp [h])
    c.skip (c.advance.readOperand.bind fun operand d _ => d.give (.negated c.current.span operand))
  | .operator op => c.fail (.unexpectedOperator op)
  | .eof => c.fail .unexpectedEof
  | .rightParen => c.fail (.unexpectedToken .rightParen)
  | .comma => c.fail (.unexpectedToken .comma)
  termination_by 5 * c.remaining + 0
  decreasing_by all_goals omega

/-- Reads the parentheses and arguments of a call of the function `name`, whose token has the span `start`. -/
def readCall (c : Cursor) (name : String) (start : Span) : Reading c Expr :=
  match h : c.kind with
  | .leftParen =>
    have := remaining_advance_lt (c := c) (by simp [h])
    c.skip (c.advance.readArguments.bind fun args d _ =>
      (d.readClosing c.current.span).bind fun closing e _ => e.give (.call name args (start.merge closing)))
  | found => c.fail (.expectedOpening found)
  termination_by 5 * c.remaining + 1
  decreasing_by all_goals omega

/-- Reads the arguments of a call, of which there may be none. -/
def readArguments (c : Cursor) : Reading c (List Expr) :=
  match c.kind with
  | .rightParen => c.give []
  | _ => c.readArgumentList
  termination_by 5 * c.remaining + 4
  decreasing_by all_goals omega

/-- Reads one argument or more, with commas between them. -/
def readArgumentList (c : Cursor) : Reading c (List Expr) :=
  (c.readExpr 0).bind fun arg d _ =>
    match h : d.kind with
    | .comma =>
      have := remaining_advance_lt (c := d) (by simp [h])
      d.skip (d.advance.readArgumentList.bind fun args e _ => e.give (arg :: args))
    | _ => d.give [arg]
  termination_by 5 * c.remaining + 3
  decreasing_by all_goals omega

end

/-- Reads one expression, which has to be followed by the end of the input. -/
def readComplete (c : Cursor) : Reading c Expr :=
  (c.readExpr 0).bind fun e d _ => if d.isAtEnd then d.give e else d.fail (.trailingInput d.kind)

end Cursor

namespace Expr

/-- The expression that some tokens form. -/
def ofTokens (tokens : List Token) : Except ParseError Expr := (Cursor.ofTokens tokens).readComplete.outcome

end Expr

end Reckon
