import Reckon.Command.Invocation
import Reckon.Evaluation
import Reckon.Legacy.Evaluation
/-!
# Reports

What a command writes: its results on one channel, what went wrong on another, and whether it succeeded.
-/

namespace Reckon

/-- The outcome of a command with the texts of its two channels. -/
structure Report where
  succeeded : Bool
  output : String
  errors : String
  deriving DecidableEq, Repr

namespace Report

/-- The report of results. -/
def ofOutput (output : String) : Report := ⟨true, output, ""⟩

/-- The report of a failure. -/
def ofErrors (errors : String) : Report := ⟨false, "", errors⟩

/-- A JSON value on a line of its own. -/
def jsonLine (v : Json) : String := v.text ++ "\n"

/-- The report of a failure in an expression. -/
def ofDiagnostic (d : Diagnostic) (i : Invocation) : Report :=
  ofErrors (d.render (i.options.color.colors i.isTerminal) i.argument)

/-- The value of the expression, or the report of why it has none. -/
def eval (i : Invocation) : Report :=
  let e := Evaluation.run .standard i.argument
  if i.options.json then ⟨e.isSuccess, jsonLine e.json, ""⟩
  else
    match e with
    | .success _ _ _ value => ofOutput (Number.plain value ++ "\n")
    | .failure _ _ _ error _ => ofDiagnostic error.diagnostic i

/-- The line of one token: its place, its span, what kind it is, and its text. -/
def tokenLine (t : Token) : String :=
  Text.leftAligned 7 (t.location.line.repr ++ ":" ++ t.location.column.repr) ++ " " ++
    Text.leftAligned 9 t.span.text ++ " " ++ Text.leftAligned 10 t.kind.description ++ " " ++ t.kind.text ++ "\n"

/-- The tokens of the expression. -/
def tokens (i : Invocation) : Report :=
  match Token.lex .standard i.argument with
  | .error e => ofDiagnostic e.diagnostic i
  | .ok ts =>
    ofOutput (if i.options.json then jsonLine (.array (ts.map Token.json)) else String.join (ts.map tokenLine))

/-- The tree of the expression, on one line and as a listing. -/
def tree (i : Invocation) : Report :=
  match Token.lex .standard i.argument with
  | .error e => ofDiagnostic e.diagnostic i
  | .ok ts =>
    match Expr.ofTokens ts with
    | .error e => ofDiagnostic e.diagnostic i
    | .ok t =>
      ofOutput (if i.options.json then jsonLine t.json
        else t.text ++ "\n" ++ String.join ((t.listing 0).map (· ++ "\n")))

/-- The value of the expression by the legacy route, or why it has none. -/
def legacy (i : Invocation) : Report :=
  let e := Legacy.Evaluation.run i.argument
  if i.options.json then ⟨e.isSuccess, jsonLine e.json, ""⟩
  else
    match e with
    | .success _ result _ => ofOutput (Number.plain result ++ "\n")
    | .failure _ _ error => ofErrors ("error: " ++ error.message ++ "\n")

/-- A function in the JSON listing. -/
def functionJson (f : NativeFunction) : Json :=
  .object [("name", .string f.name), ("signature", .string f.signature), ("arity", .nat f.arity),
    ("required", .nat f.requiredArity)]

/-- The functions and constants of a registry. -/
def functions (r : Registry) (i : Invocation) : Report :=
  ofOutput (if i.options.json then
      jsonLine (.object [("functions", .array (r.functions.map functionJson)),
        ("constants", .array (r.constants.map fun c => .ofConstant c.name c.value))])
    else
      "Functions:\n" ++ String.join (r.functions.map fun f => "  " ++ f.signature ++ "\n") ++ "\nConstants:\n" ++
        String.join (r.constants.map fun c => "  " ++ c.name ++ " = " ++ Number.plain c.value ++ "\n"))

/-- What a code means. -/
def explain (i : Invocation) : Report :=
  match Code.ofText? (Text.trimmed i.argument) with
  | some code => ofOutput (code.text ++ ": " ++ code.description ++ "\n")
  | none =>
    ofErrors ("Unknown error code: " ++ i.argument ++ "\n\nKnown codes: " ++
      ", ".intercalate (Code.all.map Code.text) ++ "\n")

/-- Does what an invocation asks for. -/
def ofInvocation (i : Invocation) : Report :=
  match i.command with
  | .eval => eval i
  | .tokens => tokens i
  | .tree => tree i
  | .legacy => legacy i
  | .functions => functions .standard i
  | .explain => explain i

end Report

end Reckon
