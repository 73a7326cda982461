/-!
# Magnitudes of doubles

The magnitude of a double is its bit pattern without the sign bit. Every finite magnitude stands for a whole
number of units, one unit being the least positive double `2 ^ (-1074)`: `units` gives that number, and `nearest`
rounds any fraction to the magnitude closest to it. Rounding what `units` gives changes nothing, so the two are
inverse to each other on the finite magnitudes.
-/

namespace Reckon.Number

/-- The magnitude of infinity; every larger one is not a number. -/
def infinite : Nat := 0x7FF0000000000000

/-- How many units make one. -/
def unitsInOne : Nat := Nat.pow 2 1074

/-- The bit pattern of a double without its sign bit. -/
def magnitude (x : Float) : Nat := x.toBits.toNat % Nat.pow 2 63

/-- Whether the sign bit is set, which it also is for negative zero. -/
def isNegative (x : Float) : Bool := decide (Nat.pow 2 63 ≤ x.toBits.toNat)

/-- Neither infinite nor NaN. -/
def isFinite (x : Float) : Bool := decide (magnitude x < infinite)

/-- The double with a given sign and magnitude. -/
def ofMagnitude (negative : Bool) (b : Nat) : Float :=
  Float.ofBits (UInt64.ofNat (if negative then Nat.pow 2 63 + b else b))

/-- The double that is not a number. -/
def nan : Float := Float.ofBits 0x7FF8000000000000

/-- The number of units that a finite magnitude stands for. -/
def units (b : Nat) : Nat :=
  if b < Nat.pow 2 52 then b else (Nat.pow 2 52 + b % Nat.pow 2 52) * Nat.pow 2 (b / Nat.pow 2 52 - 1)

/-- The whole number nearest to a fraction; a half goes to the even neighbour. -/
def roundDiv (num den : Nat) : Nat :=
  let low := num / den
  let rest := 2 * (num % den)
  if rest < den ∨ (rest = den ∧ low % 2 = 0) then low else low + 1

/--
The magnitude nearest to a fraction. A magnitude keeps 53 binary digits of its number of units, so the fraction is
rounded to a multiple of the power of two that leaves so many; a carry into the next power lands on the next
exponent of its own accord.
-/
def nearest (num den : Nat) : Nat :=
  let scale := (num * unitsInOne / den).log2 - 52
  min (scale * Nat.pow 2 52 + roundDiv (num * unitsInOne) (den * Nat.pow 2 scale)) infinite

/--
The remainder of the division that truncates its quotient. It is exact and takes the sign of the dividend; there is
none of an infinity or by zero, and an infinite divisor leaves the dividend as it is.
-/
def remainder (x y : Float) : Float :=
  if infinite ≤ magnitude x ∨ infinite < magnitude y ∨ magnitude y = 0 then nan
  else if magnitude y = infinite then x
  else ofMagnitude (isNegative x) (nearest (units (magnitude x) % units (magnitude y)) unitsInOne)

end Reckon.Number
