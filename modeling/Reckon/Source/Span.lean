/-!
# Spans

A span is a range of bytes of a source text.
-/

namespace Reckon

/-- The bytes from `start` up to `stop`, the latter excluded. -/
structure Span where
  start : Nat
  stop : Nat
  deriving DecidableEq, Repr, Inhabited

namespace Span

/-- The largest offset that a span holds. -/
def maxOffset : Nat := 0xFFFFFFFF

/-- The span of a range of any size; an offset past the largest counts as the largest. -/
def ofRange (start stop : Nat) : Span := ⟨min start maxOffset, min stop maxOffset⟩

/-- The empty span at an offset. -/
def point (offset : Nat) : Span := ⟨offset, offset⟩

/-- The least span that covers two. -/
def merge (a b : Span) : Span := ⟨min a.start b.start, max a.stop b.stop⟩

/-- Whether the span holds no byte. -/
def isEmpty (s : Span) : Bool := s.start == s.stop

/-- The number of bytes, unless the span runs backwards. -/
def length? (s : Span) : Option Nat := if s.start ≤ s.stop then some (s.stop - s.start) else none

/-- Both ends with two dots between them. -/
def text (s : Span) : String := s.start.repr ++ ".." ++ s.stop.repr

end Span

/-- The number of bytes that a text takes in UTF-8. -/
def byteLength : List Char → Nat
  | [] => 0
  | c :: cs => c.utf8Size + byteLength cs

theorem byteLength_append (cs ds : List Char) : byteLength (cs ++ ds) = byteLength cs + byteLength ds := by
  induction cs with
  | nil => simp [byteLength]
  | cons c cs ih => simp [byteLength, ih, Nat.add_assoc]

/-- How many characters at the front of a text fit into a number of bytes. -/
def charsWithin : Nat → List Char → Nat
  | _, [] => 0
  | budget, c :: cs => if c.utf8Size ≤ budget then charsWithin (budget - c.utf8Size) cs + 1 else 0

/-- Characters at the front of a text fit into just the bytes that they take. -/
theorem charsWithin_byteLength (cs ds : List Char) : charsWithin (byteLength cs) (cs ++ ds) = cs.length := by
  induction cs with
  | nil =>
    cases ds with
    | nil => rfl
    | cons d ds => rw [List.nil_append, byteLength, charsWithin, if_neg (Nat.not_le.2 d.utf8Size_pos)]; rfl
  | cons c cs ih =>
    rw [byteLength, List.cons_append, charsWithin, if_pos (Nat.le_add_right _ _), Nat.add_sub_cancel_left, ih]
    rfl

end Reckon
