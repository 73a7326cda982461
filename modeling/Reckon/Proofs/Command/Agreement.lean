import Reckon.Command.Report
import Reckon.Proofs.Guards
/-!
# Commands that agree

The commands that show the tokens, the tree and the value of an expression go through the same stages, and each of them
breaks off with the same diagnostic where a stage that it needs fails. Beyond the parser nothing fails with the standard
functions, so the tree is shown just when the value is. `Stages` lists the three ways to go, and what is said of the
reports is a case analysis over it. `Answer` is what no option changes.
-/

namespace Reckon

namespace Report

/-! ## Options -/

/-- What a command has to say about an argument, with its texts for every way to write them. -/
structure Answer where
  succeeded : Bool
  output (json : Bool) : String
  errors (json colors : Bool) : String
  /-- Success is no reason to complain. -/
  quiet : succeeded = true → ∀ json colors, errors json colors = ""

/-- The report of an answer. -/
def Answer.report (a : Answer) (options : Options) (isTerminal : Bool) : Report :=
  ⟨a.succeeded, a.output options.json, a.errors options.json (options.color.colors isTerminal)⟩

/-- The answer that only has results, as text and as JSON. -/
def Answer.ofOutput (plain json : String) : Answer where
  succeeded := true
  output asJson := if asJson then json else plain
  errors _ _ := ""
  quiet _ _ _ := rfl

/-- The answer to an expression that something is wrong with. -/
def Answer.ofDiagnostic (d : Diagnostic) (argument : String) : Answer where
  succeeded := false
  output _ := ""
  errors _ colors := d.render colors argument
  quiet := nofun

/-- The answer that something is wrong, which is written as JSON or else as a message. -/
def Answer.ofFailure (json : String) (message : Bool → String) : Answer where
  succeeded := false
  output asJson := if asJson then json else ""
  errors asJson colors := if asJson then "" else message colors
  quiet := nofun

/-- The command answers the argument in one way, and the options only choose the texts. -/
def Answers (command : Command) (argument : String) (a : Answer) : Prop :=
  ∀ options isTerminal, ofInvocation ⟨command, argument, options, isTerminal⟩ = a.report options isTerminal

variable (argument : String)

theorem exists_answers_eval : ∃ a, Answers .eval argument a := by
  cases h : Evaluation.run .standard argument with
  | success expression tokens tree value =>
    refine ⟨.ofOutput (Number.plain value ++ "\n") (jsonLine (Evaluation.success expression tokens tree value).json), ?_⟩
    rintro ⟨json, color⟩ isTerminal
    simp only [ofInvocation, eval, h]
    cases json <;> rfl
  | failure expression tokens tree error causes =>
    refine ⟨.ofFailure (jsonLine (Evaluation.failure expression tokens tree error causes).json)
      fun colors => error.diagnostic.render colors argument, ?_⟩
    rintro ⟨json, color⟩ isTerminal
    simp only [ofInvocation, eval, h]
    cases json <;> rfl

theorem exists_answers_tokens : ∃ a, Answers .tokens argument a := by
  cases h : Token.lex .standard argument with
  | error e =>
    refine ⟨.ofDiagnostic e.diagnostic argument, fun options isTerminal => ?_⟩
    simp only [ofInvocation, tokens, h]
    rfl
  | ok ts =>
    refine ⟨.ofOutput (String.join (ts.map tokenLine)) (jsonLine (.array (ts.map Token.json))), ?_⟩
    intro options isTerminal
    simp only [ofInvocation, tokens, h]
    rfl

theorem exists_answers_tree : ∃ a, Answers .tree argument a := by
  cases hl : Token.lex .standard argument with
  | error e =>
    refine ⟨.ofDiagnostic e.diagnostic argument, fun options isTerminal => ?_⟩
    simp only [ofInvocation, tree, hl]
    rfl
  | ok ts =>
    cases he : Expr.ofTokens ts with
    | error e =>
      refine ⟨.ofDiagnostic e.diagnostic argument, fun options isTerminal => ?_⟩
      simp only [ofInvocation, tree, hl, he]
      rfl
    | ok t =>
      refine ⟨.ofOutput (t.text ++ "\n" ++ String.join ((t.listing 0).map (· ++ "\n"))) (jsonLine t.json), ?_⟩
      intro options isTerminal
      simp only [ofInvocation, tree, hl, he]
      rfl

theorem exists_answers_legacy : ∃ a, Answers .legacy argument a := by
  cases h : Legacy.Evaluation.run argument with
  | success expression result tokens =>
    refine ⟨.ofOutput (Number.plain result ++ "\n")
      (jsonLine (Legacy.Evaluation.success expression result tokens).json), ?_⟩
    rintro ⟨json, color⟩ isTerminal
    simp only [ofInvocation, legacy, h]
    cases json <;> rfl
  | failure expression tokens error =>
    refine ⟨.ofFailure (jsonLine (Legacy.Evaluation.failure expression tokens error).json)
      fun _ => "error: " ++ error.message ++ "\n", ?_⟩
    rintro ⟨json, color⟩ isTerminal
    simp only [ofInvocation, legacy, h]
    cases json <;> rfl

theorem exists_answers_explain : ∃ a, Answers .explain argument a := by
  cases h : Code.ofText? (Text.trimmed argument) with
  | some code =>
    let described := code.text ++ ": " ++ code.description ++ "\n"
    refine ⟨⟨true, fun _ => described, fun _ _ => "", fun _ _ _ => rfl⟩, fun options isTerminal => ?_⟩
    simp only [ofInvocation, explain, h]
    rfl
  | none =>
    let unknown := "Unknown error code: " ++ argument ++ "\n\nKnown codes: " ++
      ", ".intercalate (Code.all.map Code.text) ++ "\n"
    refine ⟨⟨false, fun _ => "", fun _ _ => unknown, nofun⟩, fun options isTerminal => ?_⟩
    simp only [ofInvocation, explain, h]
    rfl

theorem exists_answers (command : Command) : ∃ a, Answers command argument a := by
  cases command with
  | eval => exact exists_answers_eval argument
  | tokens => exact exists_answers_tokens argument
  | tree => exact exists_answers_tree argument
  | legacy => exact exists_answers_legacy argument
  | functions => exact ⟨.ofOutput _ _, fun _ _ => rfl⟩
  | explain => exact exists_answers_explain argument

/-- The report of a command on an argument with all options. -/
def shown (json : Bool) (color : ColorMode) (isTerminal : Bool) (command : Command) : Report :=
  ofInvocation ⟨command, argument, ⟨json, color⟩, isTerminal⟩

/-- No option makes a command succeed or fail. -/
theorem succeeded_shown (json json' : Bool) (color color' : ColorMode) (isTerminal isTerminal' : Bool) (command : Command) :
    (shown argument json color isTerminal command).succeeded =
      (shown argument json' color' isTerminal' command).succeeded := by
  obtain ⟨a, ha⟩ := exists_answers argument command
  rw [shown, shown, ha, ha]
  rfl

/-- Colours are for messages only. -/
theorem output_shown (json : Bool) (color color' : ColorMode) (isTerminal isTerminal' : Bool) (command : Command) :
    (shown argument json color isTerminal command).output = (shown argument json color' isTerminal' command).output := by
  obtain ⟨a, ha⟩ := exists_answers argument command
  rw [shown, shown, ha, ha]
  rfl

variable {argument} {json : Bool} {color : ColorMode} {isTerminal : Bool} {command : Command}

/-- A command that succeeds has nothing to complain about. -/
theorem errors_shown (h : (shown argument json color isTerminal command).succeeded = true) :
    (shown argument json color isTerminal command).errors = "" := by
  obtain ⟨a, ha⟩ := exists_answers argument command
  rw [shown, ha] at h ⊢
  exact a.quiet h _ _

/-! ## Stages -/

/-- How the reports on an expression that is not shown as JSON belong together. -/
inductive Stages (report : Command → Report) : Prop
  | lex (errors : String) : report .tokens = ofErrors errors → report .tree = ofErrors errors →
      report .eval = ofErrors errors → Stages report
  | parse (tokens errors : String) : report .tokens = ofOutput tokens → report .tree = ofErrors errors →
      report .eval = ofErrors errors → Stages report
  | value (tokens tree value : String) : report .tokens = ofOutput tokens → report .tree = ofOutput tree →
      report .eval = ofOutput value → Stages report

theorem stages_shown (argument : String) (color : ColorMode) (isTerminal : Bool) :
    Stages (shown argument false color isTerminal) := by
  cases hl : Token.lex .standard argument with
  | error e =>
    have hrun := Evaluation.run_of_lex hl
    refine .lex (e.diagnostic.render (color.colors isTerminal) argument) ?_ ?_ ?_
    · simp only [shown, ofInvocation, tokens, hl]
      rfl
    · simp only [shown, ofInvocation, tree, hl]
      rfl
    · simp only [shown, ofInvocation, eval, hrun]
      rfl
  | ok ts =>
    cases he : Expr.ofTokens ts with
    | error e =>
      have hrun := Evaluation.run_of_parse hl he
      refine .parse (String.join (ts.map tokenLine)) (e.diagnostic.render (color.colors isTerminal) argument) ?_ ?_ ?_
      · simp only [shown, ofInvocation, tokens, hl]
        rfl
      · simp only [shown, ofInvocation, tree, hl, he]
        rfl
      · simp only [shown, ofInvocation, eval, hrun]
        rfl
    | ok t =>
      obtain ⟨v, hv⟩ := Evaluation.exists_value_standard hl he
      have hrun := Evaluation.run_of_value hl he hv
      refine .value (String.join (ts.map tokenLine)) (t.text ++ "\n" ++ String.join ((t.listing 0).map (· ++ "\n")))
        (Number.plain v ++ "\n") ?_ ?_ ?_
      · simp only [shown, ofInvocation, tokens, hl]
        rfl
      · simp only [shown, ofInvocation, tree, hl, he]
        rfl
      · simp only [shown, ofInvocation, eval, hrun]
        rfl

/-- The commands that show the tokens, the tree and the value do not contradict each other. -/
structure Agreement (report : Command → Report) : Prop where
  same : (report .tree).succeeded = (report .eval).succeeded
  failure : (report .eval).succeeded = false →
    (report .tree).errors = (report .eval).errors ∧ (report .tree).output = "" ∧ (report .eval).output = ""
  tokens : (report .eval).succeeded = true → (report .tokens).succeeded = true
  tokensFailure : (report .tokens).succeeded = false →
    (report .tokens).errors = (report .tree).errors ∧ (report .tree).errors = (report .eval).errors

theorem Stages.agreement {report : Command → Report} (h : Stages report) : Agreement report := by
  cases h with
  | lex errors htokens htree heval =>
    constructor <;> simp [htokens, htree, heval, ofErrors]
  | parse tokens errors htokens htree heval =>
    constructor <;> simp [htokens, htree, heval, ofErrors, ofOutput]
  | value tokens tree value htokens htree heval =>
    constructor <;> simp [htokens, htree, heval, ofOutput]

/-- The commands on an expression agree with each other, however messages are coloured. Whether a command succeeds
does not depend on any option, its output does not depend on colours, and it has messages only when it fails. For an
expression that is not too long neither the offsets of the lexer nor the guards have any say in this. -/
theorem commands_agree (hsize : argument.utf8ByteSize < 2 ^ 30) :
    Token.lex? .standard argument = some (Token.lex .standard argument) ∧
    (∀ p, Evaluation.guarded p .standard argument = Evaluation.run .standard argument) ∧
    (∀ color isTerminal, Agreement (shown argument false color isTerminal)) ∧
    ∀ command json color color' isTerminal isTerminal',
      (shown argument true color isTerminal command).succeeded = (shown argument false color isTerminal command).succeeded ∧
      (shown argument json color isTerminal command).succeeded = (shown argument json color' isTerminal' command).succeeded ∧
      (shown argument json color isTerminal command).output = (shown argument json color' isTerminal' command).output ∧
      ((shown argument json color isTerminal command).succeeded = true →
        (shown argument json color isTerminal command).errors = "") := by
  refine ⟨Token.lex?_eq _ hsize, fun p => Evaluation.guarded_eq p hsize, fun color isTerminal => ?_, ?_⟩
  · exact (stages_shown argument color isTerminal).agreement
  · intro command json color color' isTerminal isTerminal'
    exact ⟨succeeded_shown .., succeeded_shown .., output_shown .., errors_shown⟩

/-- The tokens of a call that is not closed are shown, and its tree and its value are refused in the same words. -/
theorem commands_agree_unclosed : "sqrt(2".utf8ByteSize < 2 ^ 30 ∧
    (shown "sqrt(2" false .always false .tokens).succeeded = true ∧ (shown "sqrt(2" false .always false .tokens).errors = "" ∧
    (shown "sqrt(2" false .always false .eval).succeeded = false ∧ (shown "sqrt(2" false .always false .eval).errors ≠ "" ∧
    (shown "sqrt(2" false .always false .tree).errors = (shown "sqrt(2" false .always false .eval).errors ∧
    (shown "sqrt(2" true .always false .eval).succeeded = (shown "sqrt(2" false .always false .eval).succeeded := by
  have hsize : "sqrt(2".utf8ByteSize < 2 ^ 30 := by decide
  obtain ⟨-, -, hagree, hoptions⟩ := commands_agree hsize
  have htokens : (shown "sqrt(2" false .always false .tokens).succeeded = true := by decide +kernel
  have heval : (shown "sqrt(2" false .always false .eval).succeeded = false := by decide +kernel
  obtain ⟨-, -, -, hquiet⟩ := hoptions .tokens false .always .always false false
  obtain ⟨hjson, -, -, -⟩ := hoptions .eval false .always .always false false
  refine ⟨hsize, htokens, hquiet htokens, heval, ?_, ((hagree .always false).failure heval).1, hjson⟩
  decide +kernel

end Report

end Reckon
