import Reckon.Number.Decimal
/-!
# Layouts of numbers

How the shortest decimal of a double is set out. A layout says which decimal exponents are written positionally,
whether a whole number keeps a point, how an exponent is signed and which way a tie between two shortest decimals
goes. Three layouts are in use: plain text for people, pointed text that shows a value is a double, and JSON.
-/

namespace Reckon.Number

/-- The decisions of a number format. -/
structure Layout where
  tie : Tie
  /-- Whether a number whose first digit stands at `10 ^ e` is written without an exponent. -/
  positional : Int → Bool
  /-- What follows a whole number that is written positionally. -/
  wholeSuffix : String
  /-- What a non-negative exponent begins with. -/
  exponentSign : String

/-- The exponent of the first digit. -/
def Decimal.exponent (d : Decimal) : Int :=
  Int.ofNat (d.digits.repr.length + d.shift) - 1075

/-- The digits of `n` with zeros in front of them up to a width. -/
def zeroPadded (width n : Nat) : String :=
  "".pushn '0' (width - n.repr.length) ++ n.repr

namespace Layout

/-- A decimal with its point in place. -/
def point (l : Layout) (d : Decimal) : String :=
  if 1074 ≤ d.shift then (d.digits * Nat.pow 10 (d.shift - 1074)).repr ++ l.wholeSuffix
  else
    let places := 1074 - d.shift
    (d.digits / Nat.pow 10 places).repr ++ "." ++ zeroPadded places (d.digits % Nat.pow 10 places)

/-- A decimal as one digit, its further digits behind a point, and a power of ten. -/
def scientific (l : Layout) (d : Decimal) : String :=
  let places := d.digits.repr.length - 1
  let fraction := if places = 0 then "" else "." ++ zeroPadded places (d.digits % Nat.pow 10 places)
  let exponent :=
    if d.exponent < 0 then "-" ++ d.exponent.natAbs.repr else l.exponentSign ++ d.exponent.natAbs.repr
  (d.digits / Nat.pow 10 places).repr ++ fraction ++ "e" ++ exponent

/-- The text of a finite magnitude. -/
def decimal (l : Layout) (d : Decimal) : String :=
  if d.digits = 0 ∨ l.positional d.exponent then l.point d else l.scientific d

/-- The text of a double. -/
def text (l : Layout) (x : Float) : String :=
  let unsigned :=
    if magnitude x < infinite then l.decimal (Decimal.shortest l.tie (magnitude x))
    else if magnitude x = infinite then "inf" else "NaN"
  if isNegative x then "-" ++ unsigned else unsigned

/-- Plain numbers never have an exponent, and whole ones no point. -/
def plain : Layout := ⟨.up, fun _ => true, "", ""⟩

/-- Pointed numbers have a point or an exponent, the latter below `10 ^ (-4)` and from `10 ^ 16` on. -/
def pointed : Layout := ⟨.up, fun e => -4 ≤ e && e < 16, ".0", ""⟩

/-- Numbers in JSON have a point or a signed exponent, the latter below `10 ^ (-5)` and from `10 ^ 16` on. -/
def json : Layout := ⟨.even, fun e => -5 ≤ e && e < 16, ".0", "+"⟩

end Layout

/-- The plain text of a double. -/
def plain (x : Float) : String := Layout.plain.text x

/-- The pointed text of a double. -/
def pointed (x : Float) : String := Layout.pointed.text x

end Reckon.Number
