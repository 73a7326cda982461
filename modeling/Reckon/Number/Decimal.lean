import Reckon.Number.Magnitude
/-!
# Decimals that read back

A finite magnitude is written as the shortest decimal that rounds to it again. Its exact value is a whole multiple
of `10 ^ (-1074)`; the search goes through the decimal grids from coarse to fine, tries on each the two neighbours
of the exact value, and takes the first that reads back, at the latest the exact value itself.
-/

namespace Reckon.Number

/-- The decimal `digits * 10 ^ shift`, counted in multiples of `10 ^ (-1074)`. -/
structure Decimal where
  digits : Nat
  shift : Nat
  deriving DecidableEq, Repr

/-- Which of two equally near neighbours is taken. -/
inductive Tie where
  | up
  | even
  deriving DecidableEq, Repr

namespace Decimal

/-- How many multiples of `10 ^ (-1074)` make one. -/
def inOne : Nat := Nat.pow 10 1074

/-- How many multiples of `10 ^ (-1074)` one unit holds. -/
def inUnit : Nat := Nat.pow 5 1074

/-- The magnitude that the decimal rounds to. -/
def reading (d : Decimal) : Nat := nearest (d.digits * Nat.pow 10 d.shift) inOne

/-- The neighbour of an exact value on the grid `10 ^ shift` that reads back as the magnitude `b`, the nearer one if
both do. -/
def neighbour? (tie : Tie) (b exact shift : Nat) : Option Decimal :=
  let low : Decimal := ⟨exact / Nat.pow 10 shift, shift⟩
  let high : Decimal := ⟨exact / Nat.pow 10 shift + 1, shift⟩
  let rest := 2 * (exact % Nat.pow 10 shift)
  let nearer : Decimal :=
    if rest < Nat.pow 10 shift then low
    else if rest = Nat.pow 10 shift ∧ tie = .even ∧ low.digits % 2 = 0 then low
    else high
  if low.reading = b then
    if high.reading = b then some nearer else some low
  else if high.reading = b then some high else none

/-- The first neighbour found on the grids from `10 ^ shift` down, or else the exact value. -/
def search (tie : Tie) (b exact : Nat) : Nat → Decimal
  | 0 => ⟨exact, 0⟩
  | shift + 1 => (neighbour? tie b exact (shift + 1)).getD (search tie b exact shift)

/-- A grid coarser than the number itself: its logarithm, estimated from the binary one, and two more. -/
def coarsest (exact : Nat) : Nat := exact.log2 * 1233 / 4096 + 2

/-- The shortest decimal that reads back as the magnitude `b`; zero has no digits to save. -/
def shortest (tie : Tie) (b : Nat) : Decimal :=
  if b = 0 then ⟨0, 1074⟩ else search tie b (units b * inUnit) (coarsest (units b * inUnit))

end Decimal

end Reckon.Number
