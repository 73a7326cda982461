import Reckon.Registry.Standard
/-!
# Names of the legacy route

The registry of the legacy route. It has most of the standard functions, the logarithms to two and ten under other
names, and a logarithm that counts in tenths and is rounded to a whole number.
-/

namespace Reckon.Legacy

/-- The whole number nearest to `x`; a half goes up. -/
def roundHalfUp (x : Float) : Float := Float.floor (x + 0.5)

/-- Ten times the logarithm to a base, rounded. -/
def tenfoldLogarithm (x base : Float) : Float := roundHalfUp (logarithm x base * 10)

open NativeFunction in
/-- The legacy functions in the order of their listing. -/
def functions : List NativeFunction :=
  [ofUnary "sin" Float.sin, ofUnary "cos" Float.cos, ofUnary "tan" Float.tan, ofUnary "atan" Float.atan,
    ofUnary "asin" Float.asin, ofUnary "acos" Float.acos, ofUnary "abs" Float.abs, ofUnary "sqrt" Float.sqrt,
    ofUnary "ln" Float.log, ofUnary "log_two" Float.log2, ofUnary "log_ten" Float.log10,
    withBase "log" logarithm, withBase "logn" tenfoldLogarithm, ofUnary "exp" Float.exp]

/-- The legacy registry. -/
def registry : Registry := ⟨functions, Registry.standardConstants, by decide⟩

/-- No legacy function panics. -/
theorem exists_native_eq_ok {f : NativeFunction} (hf : f ∈ functions) (args : List Float) :
    ∃ v, f.native args = .ok v := by
  simp only [functions, List.mem_cons, List.not_mem_nil, or_false] at hf
  rcases hf with rfl | rfl | rfl | rfl | rfl | rfl | rfl | rfl | rfl | rfl | rfl | rfl | rfl | rfl <;>
    exact ⟨_, rfl⟩

end Reckon.Legacy
