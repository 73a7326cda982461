import Reckon.Number.Magnitude
/-!
# Number literals

A literal is a run of digits with at most one point in it. It stands for the double nearest to the number it
writes, which is infinite when the number is too large.
-/

namespace Reckon.Number

/-- The double nearest to a number given by its digits, of which the last `places` stand behind the point. -/
def ofDigits (digits : List Char) (places : Nat) : Float :=
  ofMagnitude false (nearest (Nat.ofDigitChars 10 digits 0) (Nat.pow 10 places))

/-- The value of a literal. -/
def ofLiteral (text : List Char) : Float :=
  let whole := text.takeWhile Char.isDigit
  let fraction := (text.dropWhile Char.isDigit).drop 1
  ofDigits (whole ++ fraction) fraction.length

end Reckon.Number
