import Reckon.Diagnostic.Rendering
import Reckon.Text.Blank
/-!
# Invocations

What a command line asks for. The first argument may be a command, otherwise the whole line is an expression to be
evaluated. Options may stand anywhere before a bare `--`; only `--` with a letter behind it begins one, so an
expression may begin with signs. The other arguments are joined with spaces.
-/

namespace Reckon

/-- What is to be done. -/
inductive Command where
  | eval
  | tokens
  | tree
  | legacy
  | functions
  | explain
  deriving DecidableEq, Repr

namespace Command

/-- The command of a word. -/
def ofWord? : String → Option Command
  | "eval" => some eval
  | "tokens" => some tokens
  | "ast" => some tree
  | "legacy" => some legacy
  | "functions" => some functions
  | "explain" => some explain
  | _ => none

/-- Whether the command needs an argument; otherwise it takes none. -/
def takesArgument : Command → Bool
  | functions => false
  | _ => true

end Command

/-- How output is written. -/
structure Options where
  json : Bool
  color : ColorMode
  deriving DecidableEq, Repr

/-- A command with its argument and its options, and whether messages go to a terminal. -/
structure Invocation where
  command : Command
  argument : String
  options : Options
  isTerminal : Bool
  deriving DecidableEq, Repr

/-- Why a command line asks for nothing that can be done. -/
inductive UsageError where
  | missingArgument
  | unexpectedArgument
  | invalidColor (mode : String)
  | unknownOption (option : String)
  deriving DecidableEq, Repr

namespace UsageError

/-- What is wrong. -/
def message : UsageError → String
  | missingArgument => "missing expression"
  | unexpectedArgument => "`functions` takes no arguments"
  | invalidColor mode => "invalid color mode `" ++ mode ++ "` (expected auto, always, or never)"
  | unknownOption option => "unknown option `" ++ option ++ "`"

end UsageError

/-- What one argument before a bare `--` is. -/
inductive Argument where
  | endOfOptions
  | json
  | color (mode : String)
  | unknown
  | word
  deriving DecidableEq, Repr

namespace Argument

/-- What an argument is. -/
def ofText (s : String) : Argument :=
  if s = "--" then endOfOptions
  else if s = "--json" then json
  else if "--color=".toList.isPrefixOf s.toList then color (String.ofList (s.toList.drop 8))
  else
    match s.toList with
    | '-' :: '-' :: c :: _ => if c.isAlpha then unknown else word
    | _ => word

end Argument

namespace Options

/-- The options of a command line without any. -/
def standard : Options := ⟨false, .auto⟩

/-- Reads arguments: the options they set on top of `options`, and the words among them. -/
def read (options : Options) : List String → Except UsageError (Options × List String)
  | [] => .ok (options, [])
  | arg :: args =>
    match Argument.ofText arg with
    | .endOfOptions => .ok (options, args)
    | .json => read { options with json := true } args
    | .color mode =>
      match ColorMode.ofName? mode with
      | some color => read { options with color } args
      | none => .error (.invalidColor mode)
    | .unknown => .error (.unknownOption arg)
    | .word =>
      match read options args with
      | .ok (options, words) => .ok (options, arg :: words)
      | .error e => .error e

end Options

namespace Invocation

/-- The command of a command line and the arguments that are left for it. -/
def split : List String → Command × List String
  | [] => (.eval, [])
  | arg :: args =>
    match Command.ofWord? arg with
    | some command => (command, args)
    | none => (.eval, arg :: args)

/-- What a command line asks for. -/
def ofArguments (args : List String) (isTerminal : Bool) : Except UsageError Invocation :=
  let (command, rest) := split args
  match Options.read .standard rest with
  | .error e => .error e
  | .ok (options, words) =>
    let argument := " ".intercalate words
    if command.takesArgument then
      if (Text.trimmed argument).isEmpty then .error .missingArgument
      else .ok ⟨command, argument, options, isTerminal⟩
    else if argument.isEmpty then .ok ⟨command, argument, options, isTerminal⟩
    else .error .unexpectedArgument

end Invocation

end Reckon
