import Reckon.Source.Span
/-!
# Locations

Where a token stands, for people: the line and the column, both counted from one, and the byte offset. A carriage
return, a line feed and the two in this order each end a line. A tab takes four columns and any other character one.
A tracker walks along the source and gives the location of each offset that it is asked for.
-/

namespace Reckon

/-- A line and a column, counted from one, and a byte offset. -/
structure Location where
  line : Nat
  column : Nat
  offset : Nat
  deriving DecidableEq, Repr

namespace Location

/-- The location of the first character. -/
def first : Location := ⟨1, 1, 0⟩

instance : Inhabited Location := ⟨first⟩

/-- The line and the column in words. -/
def text (l : Location) : String := "line " ++ l.line.repr ++ ", column " ++ l.column.repr

/-- The columns that a tab takes. -/
def tabWidth : Nat := 4

/-- The location behind the character `c`. A line feed behind a carriage return belongs to the same line break. -/
def advance (l : Location) (afterReturn : Bool) (c : Char) : Location :=
  let offset := l.offset + c.utf8Size
  if c = '\n' && afterReturn then { l with offset }
  else if c = '\n' || c = '\r' then ⟨l.line + 1, 1, offset⟩
  else if c = '\t' then ⟨l.line, l.column + tabWidth, offset⟩
  else ⟨l.line, l.column + 1, offset⟩

end Location

/-- A walk along a source: what is still ahead, where the walk stands, and whether it stands behind a carriage
return. -/
structure Tracker where
  ahead : List Char
  location : Location
  afterReturn : Bool

namespace Tracker

/-- A walk that has not begun. -/
def ofSource (source : List Char) : Tracker := ⟨source, .first, false⟩

/-- Walks on over `ahead` to a byte offset, or to the end if that comes first. -/
def walk (offset : Nat) : List Char → Location → Bool → Tracker
  | [], location, afterReturn => ⟨[], location, afterReturn⟩
  | c :: cs, location, afterReturn =>
    if location.offset < offset then walk offset cs (location.advance afterReturn c) (c = '\r')
    else ⟨c :: cs, location, afterReturn⟩

/-- Walks on to a byte offset. An offset that was passed already leaves the walk where it is. -/
def locate (t : Tracker) (offset : Nat) : Tracker := walk offset t.ahead t.location t.afterReturn

end Tracker

end Reckon
