import Reckon.Token.Basic
/-!
# Cursors

A place in a list of tokens. A cursor stops at the first token that ends the input; in a list without one it finds
such a token behind the last, so there is always a current token.
-/

namespace Reckon

/-- The tokens ahead, and where the input ends if none of them says so. -/
structure Cursor where
  ahead : List Token
  endOffset : Nat
  endLocation : Location
  deriving Repr

namespace Cursor

/-- The cursor on the first of some tokens. The end of the input lies behind the last of them. -/
def ofTokens (tokens : List Token) : Cursor :=
  match tokens.getLast? with
  | none => ⟨[], 0, .first⟩
  | some last => ⟨tokens, last.span.stop, last.location⟩

/-- The token on which the cursor stands. -/
def current (c : Cursor) : Token :=
  match c.ahead with
  | [] => ⟨.eof, .point c.endOffset, c.endLocation⟩
  | t :: _ => t

/-- The kind of the current token. -/
def kind (c : Cursor) : Token.Kind := c.current.kind

/-- Whether the cursor stands at the end of the input. -/
def isAtEnd (c : Cursor) : Bool := c.kind.isEof

/-- Whether the current token is of a kind. -/
def check (c : Cursor) (kind : Token.Kind) : Bool := c.kind == kind

/-- The cursor on the next token; at the end of the input it stays. -/
def advance (c : Cursor) : Cursor :=
  match c.ahead with
  | [] => c
  | t :: ts => if t.kind.isEof then c else { c with ahead := ts }

/-- Passes the current token if it is of a kind. -/
def eat? (c : Cursor) (kind : Token.Kind) : Option (Token × Cursor) :=
  if c.check kind then some (c.current, c.advance) else none

/-- The number of tokens ahead. -/
def remaining (c : Cursor) : Nat := c.ahead.length

theorem remaining_advance_le (c : Cursor) : c.advance.remaining ≤ c.remaining := by
  unfold advance remaining
  split
  · exact Nat.le_refl _
  · next h => split <;> simp [h]

theorem remaining_advance_lt {c : Cursor} (h : c.kind ≠ .eof) : c.advance.remaining < c.remaining := by
  obtain ⟨ahead, endOffset, endLocation⟩ := c
  cases ahead with
  | nil => exact absurd rfl h
  | cons t ts =>
    have ht : t.kind.isEof = false := by
      revert h; simp only [kind, current]; cases t.kind <;> simp [Token.Kind.isEof]
    simp [advance, remaining, ht]

end Cursor

end Reckon
