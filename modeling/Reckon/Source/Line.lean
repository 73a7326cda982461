import Reckon.Source.Span
/-!
# Lines

The line of a source that an offset lies on. A carriage return, a line feed and the two in this order each end a
line. The line of an offset is the last one that starts at or before it, so an offset inside a line break belongs
to the line that the break ends, and one past the end to the last line.
-/

namespace Reckon

/-- A line, given by its number, counted from one, its first byte, and the source from there on. -/
structure Line where
  number : Nat
  start : Nat
  chars : List Char
  deriving DecidableEq, Repr

namespace Line

/-- Whether the character is part of a line break. -/
def isBreak (c : Char) : Bool := c == '\n' || c == '\r'

/-- The characters up to the line break. -/
def text (l : Line) : List Char := l.chars.takeWhile (!isBreak ·)

/-- The byte behind the last character before the line break. -/
def stop (l : Line) : Nat := l.start + byteLength l.text

/-- The column of an offset on the line, counted in characters from one. -/
def column (l : Line) (offset : Nat) : Nat := charsWithin (offset - l.start) l.chars + 1

/-- The last line that starts at or before `offset`, where `line` is the current one and `here` the byte at which
the given rest of the source begins. -/
def scan (offset : Nat) (line : Line) (here : Nat) : List Char → Line
  | [] => line
  | '\r' :: '\n' :: cs =>
    if here + 2 ≤ offset then scan offset ⟨line.number + 1, here + 2, cs⟩ (here + 2) cs else line
  | c :: cs =>
    if isBreak c then
      if here + 1 ≤ offset then scan offset ⟨line.number + 1, here + 1, cs⟩ (here + 1) cs else line
    else scan offset line (here + c.utf8Size) cs

/-- The line of an offset. -/
def ofOffset (source : List Char) (offset : Nat) : Line := scan offset ⟨1, 0, source⟩ 0 source

end Line

end Reckon
