import Reckon.Legacy.Names
import Reckon.Legacy.Program
/-!
# Evaluations by the legacy route

An expression is looked over, cut into tokens, turned into a program and run. There are no negations and no
remainders, a function sees one argument, and a program that lacks operands has the value NaN.
-/

namespace Reckon.Legacy

/-- What comes of evaluating an expression by the legacy route. There are no tokens if it was turned down unread. -/
inductive Evaluation where
  | success (expression : String) (result : Float) (tokens : List Token)
  | failure (expression : String) (tokens : Option (List Token)) (error : Error)

namespace Evaluation

/-- Evaluates an expression. Its functions never panic, so its program always has a value. -/
def run (expression : String) : Evaluation :=
  match check registry expression with
  | .error e => failure expression none e
  | .ok () =>
    let tokens := Token.lex registry expression.toList
    match convert registry [] tokens with
    | .error e => failure expression (some tokens) e
    | .ok program => success expression ((value program).toOption.getD Number.nan) tokens

/-- Whether there is a value. -/
def isSuccess : Evaluation → Bool
  | success .. => true
  | failure .. => false

/-- Whether two evaluations agree, where numbers are compared as doubles. -/
def same : Evaluation → Evaluation → Bool
  | success s v tokens, success s' v' tokens' => s == s' && v == v' && tokens == tokens'
  | failure s tokens e, failure s' tokens' e' => s == s' && tokens == tokens' && e == e'
  | _, _ => false

instance : BEq Evaluation := ⟨same⟩

/-- The evaluation as a JSON object. -/
def json : Evaluation → Json
  | success expression result tokens =>
    .object [("status", .string "sucessful"), ("expression", .string expression), ("result", .float result),
      ("tokens", .array (tokens.map Token.json))]
  | failure expression tokens error =>
    .object [("status", .string "failed"), ("expression", .string expression),
      ("tokens", .ofOption (fun ts => .array (ts.map Token.json)) tokens),
      ("errorObject", .string error.message), ("errors", .array [.string error.message])]

end Evaluation

end Reckon.Legacy
