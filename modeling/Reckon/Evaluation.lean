import Reckon.Expr.Parser
import Reckon.Expr.Text
import Reckon.Expr.Value
import Reckon.Registry.Standard
import Reckon.Token.Lexer
/-!
# Evaluations

An evaluation takes a source text all the way to its value and keeps what it makes on the way: the tokens, the tree
and the value, or else the error and what there was before it. A panic of native code is caught here and becomes a
fault.
-/

namespace Reckon

/-- A panic that was caught. -/
structure Fault where
  panic : Panic
  stage : String
  deriving DecidableEq, Repr

namespace Fault

/-- The text of the panic. -/
def message (f : Fault) : String := f.panic.message

/-- Named details of the fault in the order of their names. -/
def properties (f : Fault) : List (String × String) := [("payload", f.panic.payload), ("stage", f.stage)]

end Fault

/-- Any failure of an evaluation, or the panic behind a fault. -/
inductive Failure where
  | lex (e : LexError)
  | parse (e : ParseError)
  | eval (e : EvalError)
  | fault (f : Fault)
  | panic (message : String)
  deriving BEq, Repr

namespace Failure

/-- What went wrong. -/
def message : Failure → String
  | lex e => e.message
  | parse e => e.message
  | eval e => e.message
  | fault f => f.message
  | panic m => "panicked: " ++ m

/-- The code of the failure. -/
def code : Failure → Code
  | lex e => e.code
  | parse e => e.code
  | eval e => e.code
  | fault _ => .fault
  | panic _ => .fault

/-- The stage that failed. -/
def stage : Failure → String
  | lex _ => "lex"
  | parse _ => "parse"
  | eval _ => "eval"
  | fault _ => "fault"
  | panic _ => "fault"

/-- The span of the failure, if it has one. -/
def span? : Failure → Option Span
  | lex e => some e.span
  | parse e => some e.span
  | eval e => some e.span
  | fault _ => none
  | panic _ => none

/-- The location of the failure, if it has one. -/
def location? : Failure → Option Location
  | lex e => some e.location
  | parse e => some e.location
  | eval _ => none
  | fault _ => none
  | panic _ => none

/-- The report of the failure. -/
def diagnostic : Failure → Diagnostic
  | lex e => e.diagnostic
  | parse e => e.diagnostic
  | eval e => e.diagnostic
  | fault f => ⟨.fault, "internal fault: " ++ f.message, [], f.properties.map fun p => p.1 ++ ": " ++ p.2⟩
  | panic m => ⟨.fault, "panicked: " ++ m, [], []⟩

/-- The failure as a JSON object. -/
def json (e : Failure) : Json :=
  .object ([("stage", .string e.stage), ("code", .string e.code.text), ("message", .string e.message),
    ("span", .ofOption Span.json e.span?), ("location", .ofOption Location.json e.location?)] ++
    match e with
    | fault f => [("properties", .object (f.properties.map fun p => (p.1, .string p.2)))]
    | _ => [])

end Failure

/-- What comes of evaluating an expression. -/
inductive Evaluation where
  | success (expression : String) (tokens : List Token) (tree : Expr) (value : Float)
  | failure (expression : String) (tokens : Option (List Token)) (tree : Option Expr) (error : Failure)
    (causes : List Failure)

namespace Evaluation

/-- The failure at an error, which is its own cause. -/
def ofError (expression : String) (tokens : Option (List Token)) (tree : Option Expr) (e : Failure) : Evaluation :=
  failure expression tokens tree e [e]

/-- The failure at a panic, which is a fault caused by the panic. -/
def ofPanic (expression : String) (tokens : Option (List Token)) (tree : Option Expr) (stage : String)
    (p : Panic) : Evaluation :=
  failure expression tokens tree (.fault ⟨p, stage⟩) [.panic p.message]

/-- Evaluates an expression against a registry. -/
def run (r : Registry) (expression : String) : Evaluation :=
  match Token.lex r expression with
  | .error e => ofError expression none none (.lex e)
  | .ok tokens =>
    match Expr.ofTokens tokens with
    | .error e => ofError expression (some tokens) none (.parse e)
    | .ok tree =>
      match tree.eval r with
      | .ok value => success expression tokens tree value
      | .error (.error e) => ofError expression (some tokens) (some tree) (.eval e)
      | .error (.panic p) => ofPanic expression (some tokens) (some tree) "eval" p

/-- Whether there is a value. -/
def isSuccess : Evaluation → Bool
  | success .. => true
  | failure .. => false

/-- Whether two evaluations agree, where values are compared as doubles. -/
def same : Evaluation → Evaluation → Bool
  | success s tokens tree v, success s' tokens' tree' v' =>
    s == s' && tokens == tokens' && tree == tree' && v == v'
  | failure s tokens tree e causes, failure s' tokens' tree' e' causes' =>
    s == s' && tokens == tokens' && tree == tree' && e == e' && causes == causes'
  | _, _ => false

instance : BEq Evaluation := ⟨same⟩

/-- The evaluation as a JSON object. -/
def json : Evaluation → Json
  | success expression tokens tree value =>
    .object [("status", .string "success"), ("expression", .string expression),
      ("tokens", .array (tokens.map Token.json)), ("ast", tree.json), ("value", .float value)]
  | failure expression tokens tree error causes =>
    .object [("status", .string "failure"), ("expression", .string expression),
      ("tokens", .ofOption (fun ts => .array (ts.map Token.json)) tokens), ("ast", .ofOption Expr.json tree),
      ("error", error.json), ("causes", .array (causes.map Failure.json))]

end Evaluation

end Reckon
