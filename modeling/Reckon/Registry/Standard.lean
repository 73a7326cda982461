import Reckon.Registry.Basic
/-!
# The standard registry

The functions and constants that an expression may use unless it is given others. A function reads its arguments by
position and ignores any beyond those it needs.
-/

namespace Reckon

/-- The argument at a position, NaN where there is none. -/
def argument (args : List Float) (i : Nat) : Float := args.getD i Number.nan

namespace NativeFunction

/-- The function of one required argument `x`. -/
def ofUnary (name : String) (f : Float → Float) : NativeFunction :=
  ⟨name, [⟨"x", none⟩], fun args => .ok (f (argument args 0))⟩

/-- The function of `x` and a `base`, the latter ten when it is omitted. -/
def withBase (name : String) (f : Float → Float → Float) : NativeFunction :=
  ⟨name, [⟨"x", none⟩, ⟨"base", some 10⟩], fun args => .ok (f (argument args 0) (argument args 1))⟩

end NativeFunction

/-- The logarithm to a base, as the quotient of two natural ones. -/
def logarithm (x base : Float) : Float := Float.log x / Float.log base

namespace Registry

open NativeFunction in
/-- The standard functions in the order of their listing. -/
def standardFunctions : List NativeFunction :=
  [ofUnary "sin" Float.sin, ofUnary "cos" Float.cos, ofUnary "tan" Float.tan, ofUnary "atan" Float.atan,
    ofUnary "asin" Float.asin, ofUnary "acos" Float.acos, ofUnary "abs" Float.abs, ofUnary "sqrt" Float.sqrt,
    ofUnary "ln" Float.log, withBase "log" logarithm, ofUnary "log2" Float.log2, ofUnary "log10" Float.log10,
    ofUnary "exp" Float.exp]

/-- The standard constants, each the double nearest to its number. -/
def standardConstants : List Constant :=
  [⟨"PI", Float.ofBits 0x400921FB54442D18⟩, ⟨"E", Float.ofBits 0x4005BF0A8B145769⟩]

/-- The standard registry. -/
def standard : Registry := ⟨standardFunctions, standardConstants, by decide⟩

end Registry

end Reckon
