import Reckon.Number.Layout
import Reckon.Text.Quoted
/-!
# Registries

A registry names the functions and the constants that an expression may use. Both tables keep their order, and no
name occurs twice in them, so a name means at most one thing. A function's native code is any map from argument
lists to doubles, and it may panic.
-/

namespace Reckon

/-- How native code breaks off: with a fixed text, with a text made up on the spot, or without any. -/
inductive Panic where
  | fixed (message : String)
  | made (message : String)
  | silent
  deriving DecidableEq, Repr

namespace Panic

/-- The text that the panic is reported with. -/
def message : Panic → String
  | fixed m => m
  | made m => m
  | silent => "panic with a non-string payload"

/-- The kind of payload that the panic is reported with. -/
def payload : Panic → String
  | fixed _ => "&str"
  | made _ => "String"
  | silent => "unknown"

end Panic

/-- Native code. -/
abbrev Native := List Float → Except Panic Float

/-- A declared parameter, with the value that an omitted argument takes if it may be omitted. -/
structure Parameter where
  name : String
  default : Option Float
  deriving Repr

/-- A named function with its parameters and its native code. -/
structure NativeFunction where
  name : String
  params : List Parameter
  native : Native

namespace NativeFunction

/-- The number of declared parameters. -/
def arity (f : NativeFunction) : Nat := f.params.length

/-- The number of parameters before the first one that may be omitted. -/
def requiredArity (f : NativeFunction) : Nat := (f.params.takeWhile (·.default.isNone)).length

/-- The values of the parameters from position `n` on when their arguments are omitted. -/
def defaults (f : NativeFunction) (n : Nat) : List Float := (f.params.drop n).map (·.default.getD Number.nan)

/-- Calls the native code on the arguments followed by what the omitted ones stand for. -/
def call (f : NativeFunction) (args : List Float) : Except Panic Float := f.native (args ++ f.defaults args.length)

/-- The function as it is listed, with the default of each parameter that has one. -/
def signature (f : NativeFunction) : String :=
  f.name ++ "(" ++ ", ".intercalate (f.params.map fun p =>
    match p.default with
    | some d => p.name ++ " = " ++ Number.plain d
    | none => p.name) ++ ")"

/-- A parameter in full. -/
def parameterDump (p : Parameter) : String :=
  "Param \x7b name: " ++ Text.quoted p.name ++ ", default: " ++
    (match p.default with
    | some d => "Some(" ++ Number.pointed d ++ ")"
    | none => "None") ++ " \x7d"

/-- The function in full, its native code left out. -/
def dump (f : NativeFunction) : String :=
  "BuiltinFunction \x7b name: " ++ Text.quoted f.name ++ ", params: [" ++
    ", ".intercalate (f.params.map parameterDump) ++ "], .. \x7d"

end NativeFunction

/-- A named value. -/
structure Constant where
  name : String
  value : Float
  deriving Repr

/-- The tables of functions and constants, with no name in them twice. -/
structure Registry where
  functions : List NativeFunction
  constants : List Constant
  nodup : (functions.map NativeFunction.name ++ constants.map Constant.name).Nodup

/-- A name that occurs twice in the tables of a registry. -/
structure DuplicateName where
  name : String
  deriving DecidableEq, Repr

/-- What to report of a duplicate name. -/
def DuplicateName.message (e : DuplicateName) : String :=
  "builtin name `" ++ e.name ++ "` is declared more than once"

/-- The first element that is among `seen` or occurred before. -/
def firstRepeated? (seen : List String) : List String → Option String
  | [] => none
  | n :: ns => if n ∈ seen then some n else firstRepeated? (n :: seen) ns

theorem nodup_of_firstRepeated?_eq_none {seen ns : List String} (h : firstRepeated? seen ns = none) :
    ns.Nodup ∧ ∀ n ∈ ns, n ∉ seen := by
  induction ns generalizing seen with
  | nil => simp
  | cons n ns ih =>
    rw [firstRepeated?] at h
    split at h
    · simp at h
    · obtain ⟨hd, hs⟩ := ih h
      refine ⟨List.nodup_cons.2 ⟨fun hn => hs n hn (List.mem_cons_self ..), hd⟩, ?_⟩
      intro m hm
      rcases List.mem_cons.1 hm with rfl | hm
      · assumption
      · exact fun h' => hs m hm (List.mem_cons_of_mem _ h')

namespace Registry

/-- The registry with the given tables, unless a name occurs twice in them. -/
def ofTables (functions : List NativeFunction) (constants : List Constant) : Except DuplicateName Registry :=
  match h : firstRepeated? [] (functions.map NativeFunction.name ++ constants.map Constant.name) with
  | some n => .error ⟨n⟩
  | none => .ok ⟨functions, constants, (nodup_of_firstRepeated?_eq_none h).1⟩

/-- The registry without any entry. -/
def empty : Registry := ⟨[], [], by simp⟩

instance : Inhabited Registry := ⟨empty⟩

/-- Every name, functions first. -/
def names (r : Registry) : List String := r.functions.map NativeFunction.name ++ r.constants.map Constant.name

/-- The function of a name. -/
def function? (r : Registry) (name : String) : Option NativeFunction := r.functions.find? (·.name = name)

/-- The constant of a name. -/
def constant? (r : Registry) (name : String) : Option Constant := r.constants.find? (·.name = name)

end Registry

end Reckon
