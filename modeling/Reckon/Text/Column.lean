/-!
# Columns

Text set in columns of a listing. A text that is wider than its column is kept whole.
-/

namespace Reckon.Text

/-- As many spaces. -/
def spaces (n : Nat) : String := "".pushn ' ' n

/-- The text with spaces behind it up to a width. -/
def leftAligned (width : Nat) (s : String) : String := s ++ spaces (width - s.length)

/-- The text with spaces in front of it up to a width. -/
def rightAligned (width : Nat) (s : String) : String := spaces (width - s.length) ++ s

end Reckon.Text
