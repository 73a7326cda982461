import Reckon.Main
import Reckon.Proofs.Expr.Grammar
import Reckon.Proofs.Expr.Reading
import Reckon.Proofs.Expr.Climbing
import Reckon.Proofs.Registry.Lookup
import Reckon.Proofs.Token.Lexeme
import Reckon.Proofs.Token.Scan
import Reckon.Proofs.Token.Splitting
import Reckon.Proofs.Evaluation
import Reckon.Proofs.Expr.Meaning
import Reckon.Proofs.Legacy.Admission
import Reckon.Proofs.Legacy.Agreement
import Reckon.Proofs.Expr.RoundTrip
import Reckon.Proofs.Expr.Recording
import Reckon.Proofs.Token.Offsets
import Reckon.Proofs.Source.Overflow
import Reckon.Proofs.Token.Overflow
import Reckon.Proofs.Guards
import Reckon.Proofs.Expr.Forms
import Reckon.Proofs.Token.Cutting
import Reckon.Proofs.Expr.Segments
import Reckon.Proofs.Expr.Spans
import Reckon.Proofs.Expr.Failing
import Reckon.Proofs.Expr.Stuck
import Reckon.Proofs.Expr.Errors
import Reckon.Proofs.Source.Counting
import Reckon.Proofs.Token.Locations
import Reckon.Proofs.Diagnostic.Place
import Reckon.Proofs.Token.Joining
import Reckon.Proofs.Token.Obstacles
import Reckon.Proofs.Composition
import Reckon.Proofs.Legacy.Vetting
import Reckon.Proofs.Token.Separation
import Reckon.Proofs.Extension
import Reckon.Proofs.Expr.Resuming
import Reckon.Proofs.Command.Agreement
import Reckon.Proofs.Legacy.Screening
import Reckon.Proofs.Legacy.Conservation
import Reckon.Proofs.Legacy.Waiting
import Reckon.Proofs.Legacy.Commas
import Reckon.Proofs.Registry.Tables
import Reckon.Proofs.Command.Arguments
import Reckon.Proofs.Source.Lines
import Reckon.Proofs.Diagnostic.Excerpt
import Reckon.Proofs.Diagnostic.Marks
import Reckon.Proofs.Diagnostic.Colors
import Reckon.Proofs.Expr.Ending
import Reckon.Proofs.Completion
import Reckon.Proofs.Number.Distinct
import Reckon.Proofs.Expr.Listing
import Reckon.Proofs.Token.Normal
import Reckon.Proofs.Expr.Rereading
import Reckon.Proofs.Legacy.Moments
import Reckon.Proofs.Expr.Horizon
import Reckon.Proofs.Expr.Accounting
import Reckon.Proofs.Number.Scientific
import Reckon.Proofs.Json
import Reckon.Proofs.Expr.Encoding
import Reckon.Proofs.Expr.Moves
import Reckon.Proofs.Expr.Progress
import Reckon.Proofs.Source.Tracking
