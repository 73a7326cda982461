import Reckon.Diagnostic.Code
import Reckon.Source.Span
/-!
# Diagnostics

A diagnostic says what is wrong: a code, a message, labels on spans of the source, and notes. A primary label marks
the place of the failure, a secondary one adds context.
-/

namespace Reckon

/-- A remark on a span of the source. -/
structure Label where
  span : Span
  message : String
  isPrimary : Bool
  deriving DecidableEq, Repr

/-- A report of one failure. -/
structure Diagnostic where
  code : Code
  message : String
  labels : List Label
  notes : List String
  deriving DecidableEq, Repr

namespace Diagnostic

/-- The diagnostic with a primary label on one span. -/
def ofLabel (code : Code) (message : String) (span : Span) (label : String) (notes : List String) : Diagnostic :=
  ⟨code, message, [⟨span, label, true⟩], notes⟩

/-- The span of the first primary label. -/
def primarySpan? (d : Diagnostic) : Option Span := (d.labels.find? (·.isPrimary)).map (·.span)

/-- The diagnostic in one line. -/
def headline (d : Diagnostic) : String := "error[" ++ d.code.text ++ "]: " ++ d.message

end Diagnostic

end Reckon
