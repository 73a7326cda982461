import Reckon.Legacy.Program
import Reckon.Proofs.Expr.Recording
import Reckon.Registry.Standard
/-!
# Omitted arguments and surplus ones

A call hands its arguments to the native code and then, for each parameter that is left, what an omitted argument
stands for. So to write these values out as further arguments changes nothing, and neither does it to leave out the
arguments of a standard function beyond its parameters. The legacy route calls a function on the top of its stack in
the same way.
-/

namespace Reckon

namespace NativeFunction

variable {f : NativeFunction} {xs : List Float}

theorem length_defaults (f : NativeFunction) (n : Nat) : (f.defaults n).length = f.arity - n := by
  rw [defaults, List.length_map, List.length_drop, arity]

theorem defaults_of_arity_le {n : Nat} (h : f.arity ≤ n) : f.defaults n = [] := by
  rw [← List.length_eq_zero_iff, length_defaults]
  omega

/-- The native code receives as many arguments as there are parameters, or more. -/
theorem length_append_defaults (f : NativeFunction) (xs : List Float) :
    (xs ++ f.defaults xs.length).length = max xs.length f.arity := by
  rw [List.length_append, length_defaults]
  omega

theorem call_append_defaults (f : NativeFunction) (xs : List Float) : f.call (xs ++ f.defaults xs.length) = f.call xs := by
  have hnone : f.defaults (xs ++ f.defaults xs.length).length = [] := by
    refine defaults_of_arity_le ?_
    rw [length_append_defaults]
    omega
  rw [call, hnone, List.append_nil, call]

/-- The native code does not look beyond the declared parameters. -/
def ReadsDeclared (f : NativeFunction) : Prop := ∀ xs, f.native (xs.take f.arity) = f.native xs

theorem call_take (h : f.ReadsDeclared) (xs : List Float) : f.call (xs.take f.arity) = f.call xs := by
  rcases Nat.le_total xs.length f.arity with hle | hge
  · rw [List.take_of_length_le hle]
  · have hlength : (xs.take f.arity).length = f.arity := by
      rw [List.length_take]
      omega
    rw [call, call, hlength, defaults_of_arity_le (Nat.le_refl _), defaults_of_arity_le hge, List.append_nil,
      List.append_nil, h]

theorem argument_take {n i : Nat} (h : i < n) (xs : List Float) : argument (xs.take n) i = argument xs i := by
  rw [argument, argument, List.getD_eq_getElem?_getD, List.getD_eq_getElem?_getD, List.getElem?_take_of_lt h]

theorem readsDeclared_ofUnary (name : String) (g : Float → Float) : (ofUnary name g).ReadsDeclared := by
  intro xs
  have hfirst : argument (xs.take 1) 0 = argument xs 0 := argument_take Nat.one_pos xs
  simp only [ofUnary, arity, List.length_singleton, hfirst]

theorem readsDeclared_withBase (name : String) (g : Float → Float → Float) : (withBase name g).ReadsDeclared := by
  intro xs
  have hfirst : argument (xs.take 2) 0 = argument xs 0 := argument_take Nat.two_pos xs
  have hsecond : argument (xs.take 2) 1 = argument xs 1 := argument_take Nat.one_lt_two xs
  simp only [withBase, arity, List.length_cons, List.length_nil, hfirst, hsecond]

theorem readsDeclared_standard : ∀ f ∈ Registry.standardFunctions, f.ReadsDeclared := by
  simp only [Registry.standardFunctions, List.forall_mem_cons, List.not_mem_nil, readsDeclared_ofUnary,
    readsDeclared_withBase, true_and, false_imp_iff, implies_true]

end NativeFunction

/-- The expression is the number that an omitted argument of the parameter stands for. -/
def Parameter.WrittenOut (p : Parameter) (e : Expr) : Prop := ∃ s, e = .number (p.default.getD Number.nan) s

namespace Expr

variable {r : Registry} {f : NativeFunction} {args ds : List Expr} {xs : List Float}

/-! ## Calls whose arguments have values -/

/-- The arguments have values, in their order. -/
def Values (r : Registry) (args : List Expr) (xs : List Float) : Prop :=
  List.Forall₂ (fun e x => e.eval r = .ok x) args xs

theorem Values.evalAll_eq (h : Values r args xs) : evalAll r args = .ok xs := by
  induction h with
  | nil => rw [evalAll]
  | cons he _ ih => rw [evalAll, he, ih]

theorem Values.length_eq (h : Values r args xs) : args.length = xs.length := List.Forall₂.length_eq h

theorem Values.take (h : Values r args xs) (n : Nat) : Values r (args.take n) (xs.take n) := List.forall₂_take n h

theorem Values.append {more : List Expr} {ys : List Float} (h : Values r args xs) (h' : Values r more ys) :
    Values r (args ++ more) (xs ++ ys) := List.rel_append h h'

/-- The defaults that are written out have the values of the omitted arguments. -/
theorem values_of_writtenOut {n : Nat} (h : List.Forall₂ Parameter.WrittenOut (f.params.drop n) ds) :
    Values r ds (f.defaults n) := by
  rw [NativeFunction.defaults]
  generalize f.params.drop n = params at h
  induction h with
  | nil => exact .nil
  | @cons p d params ds hd _ ih =>
    obtain ⟨s, rfl⟩ := hd
    exact .cons (by rw [eval]) ih

theorem eval_call_of_values (hf : f ∈ r.functions) (h : Values r args xs) (s : Span) :
    (call f.name args s).eval r = (f.call xs).mapError .panic := by
  rw [eval, h.evalAll_eq]
  simp only [Registry.callValue, Registry.function?_eq_some_iff.2 ⟨hf, rfl⟩]
  cases f.call xs <;> rfl

/-- The runs of native code for some arguments, in their order. -/
def runsAll (r : Registry) (args : List Expr) : List Run :=
  (record (evalAllIn r NativeFunction.invokeRecorded args) []).2

/-- A call whose arguments have values runs its native code last. -/
theorem recorded_call (hf : f ∈ r.functions) (h : Values r args xs) (s : Span) :
    ((call f.name args s).recorded r).2 = runsAll r args ++ [⟨f.name, xs ++ f.defaults xs.length⟩] := by
  obtain ⟨runs, hargs, -⟩ := records_evalAll r args []
  rw [h.evalAll_eq] at hargs
  rw [recorded, runsAll, evalIn, record_bind, hargs]
  simp only [Registry.function?_eq_some_iff.2 ⟨hf, rfl⟩, record_invokeRecorded]

/-! ## Completion -/

/-- How a call of the function on arguments with the values `xs` is completed. -/
structure Completed (r : Registry) (f : NativeFunction) (args : List Expr) (xs : List Float) : Prop where
  /-- Omitted arguments may be written out. -/
  omitted : ∀ ds, List.Forall₂ Parameter.WrittenOut (f.params.drop args.length) ds →
    ∀ s s', (call f.name (args ++ ds) s).eval r = (call f.name args s').eval r
  /-- The native code runs behind the arguments, on their values and then the defaults, and decides. -/
  received : ∀ s, ∃ ys, ((call f.name args s).recorded r).2 = runsAll r args ++ [⟨f.name, xs ++ ys⟩] ∧
    (xs ++ ys).length = max args.length f.arity ∧
    ys = (f.params.drop args.length).map (fun p => p.default.getD Number.nan) ∧
    (call f.name args s).eval r = (f.native (xs ++ ys)).mapError .panic
  /-- A standard function has no use for arguments beyond its parameters. -/
  surplus : f ∈ Registry.standard.functions →
    ∀ s s', (call f.name (args.take f.arity) s).eval r = (call f.name args s').eval r

/-- A call is completed with the declared defaults, and a function of the legacy route runs on one argument as a call
of the main one does. -/
theorem completed_call (hf : f ∈ r.functions) (h : Values r args xs) :
    Completed r f args xs ∧
      ∀ x s s', (Legacy.value [.number x, .function f]).mapError .panic = (call f.name [number x s] s').eval r := by
  refine ⟨⟨fun ds hds s s' => ?_, fun s => ?_, fun hstandard s s' => ?_⟩, fun x s s' => ?_⟩
  · have hall : Values r (args ++ ds) (xs ++ f.defaults xs.length) :=
      h.append (values_of_writtenOut (h.length_eq ▸ hds))
    rw [eval_call_of_values hf hall, eval_call_of_values hf h, f.call_append_defaults]
  · refine ⟨f.defaults xs.length, recorded_call hf h s, ?_, ?_, eval_call_of_values hf h s⟩
    · rw [f.length_append_defaults, h.length_eq]
    · rw [h.length_eq, NativeFunction.defaults]
  · rw [eval_call_of_values hf (h.take f.arity), eval_call_of_values hf h,
      NativeFunction.call_take (NativeFunction.readsDeclared_standard f hstandard)]
  · have hx : Values r [number x s] [x] := .cons (by rw [eval]) .nil
    rw [eval_call_of_values hf hx]
    simp only [Legacy.value, Legacy.valueFrom, Legacy.execute, Legacy.top, List.headD_cons]
    cases f.call [x] <;> rfl

/-- A logarithm whose base is left out takes it to be ten, and its native code receives both. -/
theorem completed_call_log :
    (call "log" [number 1000 ⟨4, 8⟩, number 10 ⟨9, 11⟩] ⟨0, 12⟩).eval .standard =
        (call "log" [number 1000 ⟨4, 8⟩] ⟨0, 9⟩).eval .standard ∧
      ((call "log" [number 1000 ⟨4, 8⟩] ⟨0, 9⟩).recorded .standard).2 = [⟨"log", [1000, 10]⟩] ∧
      (Legacy.value [.number 1000, .function (.withBase "log" logarithm)]).mapError .panic =
        (call "log" [number 1000 ⟨4, 8⟩] ⟨0, 9⟩).eval .standard := by
  have hf : NativeFunction.withBase "log" logarithm ∈ Registry.standard.functions := by
    simp only [Registry.standard, Registry.standardFunctions, List.mem_cons, true_or, or_true]
  have hx : Values .standard [number 1000 ⟨4, 8⟩] [1000] := .cons (by rw [eval]) .nil
  obtain ⟨⟨homitted, hreceived, -⟩, hlegacy⟩ := completed_call hf hx
  have hten : List.Forall₂ Parameter.WrittenOut [⟨"base", some 10⟩] [number 10 ⟨9, 11⟩] := .cons ⟨_, rfl⟩ .nil
  obtain ⟨ys, hrecorded, -, rfl, -⟩ := hreceived ⟨0, 9⟩
  have hnone : runsAll .standard [number 1000 ⟨4, 8⟩] = [] := rfl
  rw [hnone, List.nil_append] at hrecorded
  exact ⟨homitted _ hten _ _, hrecorded, hlegacy 1000 _ _⟩

end Expr

end Reckon
