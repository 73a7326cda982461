import Reckon.Command.Report
/-!
# Sessions

A whole run of the program: help and version come before anything else, a command line that asks for nothing is
answered with a message, and any other with the report of its command. The exit status is 0 after success, 1 after a
failure and 2 after a message about usage.
-/

namespace Reckon

/-- The exit status of a run and the texts of its two channels. -/
structure Session where
  status : Nat
  output : String
  errors : String
  deriving DecidableEq, Repr

namespace Session

/-- The lines of the help text. -/
def usageLines : List String :=
  ["Arith expression evaluator",
    "",
    "Usage: arith [command] <expression> [options]",
    "",
    "Commands:",
    "  eval <expr>       Evaluate an expression (default)",
    "  tokens <expr>     Show the token stream",
    "  ast <expr>        Show the expression tree",
    "  legacy <expr>     Evaluate with the legacy shunting-yard path",
    "  functions         List builtin functions and constants",
    "  explain <code>    Describe a diagnostic code (e.g. E1004)",
    "  help              Show this message",
    "",
    "Options:",
    "  --json                     Print the result as JSON",
    "  --color=auto|always|never  Color diagnostics (default: auto)",
    "  --                         Treat the remaining arguments as expression",
    "",
    "Environment:",
    "  RUST_LOG        Tracing filter (e.g. RUST_LOG=arith_parse=trace)",
    "  RUST_BACKTRACE  Capture a stack trace for internal faults",
    "  NO_COLOR        Disable color in auto mode",
    "",
    "Examples:",
    "  arith '3 + 4 * 2'",
    "  arith ast '2 ^ 3 ^ 2'",
    "  arith --json 'log(8, 2)'"]

/-- The help text. -/
def usage : String := String.join (usageLines.map (· ++ "\n"))

/-- The line that tells the version. -/
def version : String := "arith 0.1.0\n"

/-- The run that ends with a message about usage, and with the help text if the arguments do not make sense. -/
def ofUsageError (e : UsageError) : Session :=
  let message := "error: " ++ e.message ++ "\n"
  match e with
  | .missingArgument | .unexpectedArgument => ⟨2, usage, message ++ "\n"⟩
  | .invalidColor _ | .unknownOption _ => ⟨2, "", message⟩

/-- The run with the given arguments, where `isTerminal` says whether messages go to a terminal that shows colours. -/
def run (args : List String) (isTerminal : Bool) : Session :=
  match args with
  | [] | "help" :: _ | "--help" :: _ | "-h" :: _ => ⟨0, usage, ""⟩
  | "--version" :: _ | "-V" :: _ => ⟨0, version, ""⟩
  | _ =>
    match Invocation.ofArguments args isTerminal with
    | .error e => ofUsageError e
    | .ok i =>
      let report := Report.ofInvocation i
      ⟨if report.succeeded then 0 else 1, report.output, report.errors⟩

end Session

end Reckon
