import Reckon.Diagnostic.Basic
import Reckon.Source.Line
import Reckon.Text.Column
/-!
# Renderings of diagnostics

A diagnostic as it is shown to people: its headline, the place of its first primary label, each label under the line
of the source that it starts on, and its notes. On a terminal the parts are painted in colours, which adds escape
sequences and changes nothing else.
-/

namespace Reckon

/-- When output is coloured. -/
inductive ColorMode where
  | auto
  | always
  | never
  deriving DecidableEq, Repr

namespace ColorMode

/-- The mode of a name. -/
def ofName? : String → Option ColorMode
  | "auto" => some auto
  | "always" => some always
  | "never" => some never
  | _ => none

/-- Whether output in this mode is coloured, given whether it goes to a terminal. -/
def colors (mode : ColorMode) (isTerminal : Bool) : Bool :=
  match mode with
  | auto => isTerminal
  | always => true
  | never => false

end ColorMode

/-- The ways to paint a part of the output. -/
inductive Paint where
  | error
  | strong
  | secondary
  deriving DecidableEq, Repr

namespace Paint

/-- The parameters of the escape sequence that turns the paint on. -/
def parameters : Paint → String
  | error => "1;31"
  | strong => "1"
  | secondary => "1;34"

/-- The text in a paint, if there are colours. -/
def apply (paint : Paint) (colors : Bool) (s : String) : String :=
  if colors then "\x1b[" ++ paint.parameters ++ "m" ++ s ++ "\x1b[0m" else s

end Paint

namespace Label

/-- The line of the source that the label starts on. -/
def line (l : Label) (source : List Char) : Line := .ofOffset source l.span.start

/-- How many characters of the line stand before the label. -/
def indent (l : Label) (line : Line) : Nat := charsWithin (l.span.start - line.start) line.text

/-- How many marks stand under the label: one for each of its characters on the line, and at least one. -/
def width (l : Label) (line : Line) : Nat :=
  max 1 (charsWithin (l.span.stop - line.start) line.text - l.indent line)

/-- What stands before the marks: a tab under each tab and a space under each other character. -/
def padding (l : Label) (line : Line) : String :=
  String.ofList ((line.text.take (l.indent line)).map fun c => if c = '\t' then '\t' else ' ')

/-- The marks and the message of the label. -/
def marks (l : Label) (line : Line) : String :=
  "".pushn (if l.isPrimary then '^' else '-') (l.width line) ++ (if l.message = "" then "" else " " ++ l.message)

/-- The label under its line, behind gutters of a width. -/
def render (l : Label) (colors : Bool) (source : List Char) (gutter : Nat) : String :=
  let line := l.line source
  let edge (s : String) := Paint.secondary.apply colors (Text.rightAligned gutter s ++ " |")
  let paint : Paint := if l.isPrimary then .error else .secondary
  edge "" ++ "\n" ++
    edge line.number.repr ++ " " ++ String.ofList line.text ++ "\n" ++
    edge "" ++ " " ++ l.padding line ++ paint.apply colors (l.marks line) ++ "\n"

end Label

namespace Diagnostic

/-- The width of the gutter: the digits of the largest line number. -/
def gutter (d : Diagnostic) (source : List Char) : Nat :=
  ((d.labels.map fun (l : Label) => (l.line source).number).foldl max 1).repr.length

/-- The place of the first primary label, if there is one. -/
def place (d : Diagnostic) (colors : Bool) (source : List Char) : String :=
  match d.primarySpan? with
  | none => ""
  | some span =>
    let line := Line.ofOffset source span.start
    Paint.secondary.apply colors (Text.spaces (d.gutter source) ++ "-->") ++ " " ++ line.number.repr ++ ":" ++
      (line.column span.start).repr ++ "\n"

/-- The diagnostic as it is shown. -/
def render (d : Diagnostic) (colors : Bool) (source : String) : String :=
  let chars := source.toList
  let gutter := d.gutter chars
  Paint.error.apply colors "error" ++ Paint.strong.apply colors ("[" ++ d.code.text ++ "]") ++ ": " ++ d.message ++
    "\n" ++ d.place colors chars ++ String.join (d.labels.map (·.render colors chars gutter)) ++
    String.join (d.notes.map fun note =>
      Text.spaces gutter ++ " = " ++ Paint.strong.apply colors "note" ++ ": " ++ note ++ "\n") ++ "\n"

end Diagnostic

/-- A destination of diagnostics: whether it is coloured, and what has been written to it. -/
structure Emitter where
  colors : Bool
  written : String
  deriving DecidableEq, Repr

namespace Emitter

/-- A destination with nothing written to it. -/
def ofMode (mode : ColorMode) (isTerminal : Bool) : Emitter := ⟨mode.colors isTerminal, ""⟩

/-- Writes a diagnostic. -/
def emit (e : Emitter) (d : Diagnostic) (source : String) : Emitter :=
  { e with written := e.written ++ d.render e.colors source }

end Emitter

end Reckon
