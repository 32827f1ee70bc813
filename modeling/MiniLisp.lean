import MiniLisp.Text.Basic
import MiniLisp.Text.Ranges
import MiniLisp.Text.Blank
import MiniLisp.Text.Printable
import MiniLisp.Text.DecimalDigit
import MiniLisp.Text.Uppercase
import MiniLisp.Text.Position
import MiniLisp.Text.Locator
import MiniLisp.Text.Escape
import MiniLisp.Text.Quotation
import MiniLisp.Text.Utf8
import MiniLisp.Text.LineEnd
import MiniLisp.Number.Binary64
import MiniLisp.Number.Decimal
import MiniLisp.Number.Basic
import MiniLisp.Number.Numeral
import MiniLisp.Atom
import MiniLisp.Tree
import MiniLisp.Datum.Written
import MiniLisp.Datum.Layout
import MiniLisp.Tree.Display
import MiniLisp.ReadError
import MiniLisp.Event
import MiniLisp.Token.Basic
import MiniLisp.Token.Lexer
import MiniLisp.Document.Body
import MiniLisp.Document.Stream
import MiniLisp.Setting
import MiniLisp.Error
import MiniLisp.Document.Read
import MiniLisp.Environment
import MiniLisp.Value
import MiniLisp.Builtin.Arithmetic
import MiniLisp.Builtin.Structure
import MiniLisp.Evaluation.Run
import MiniLisp.Evaluation.Apply
import MiniLisp.Evaluation.SpecialForm
import MiniLisp.Evaluation.Evaluate
import MiniLisp.Session
import MiniLisp.Proofs.Document.Acceptance
import MiniLisp.Proofs.Text.Quoted
import MiniLisp.Proofs.Token.Lexeme
import MiniLisp.Proofs.Document.Grammar
import MiniLisp.Proofs.Token.Rendering
import MiniLisp.Proofs.Datum.RoundTrip
import MiniLisp.Proofs.Datum.Layout
import MiniLisp.Proofs.Document.Spacing
import MiniLisp.Proofs.Tree.Related
import MiniLisp.Proofs.Evaluation.Correspondence
import MiniLisp.Proofs.Builtin.Agreement
import MiniLisp.Proofs.Evaluation.Comparison
import MiniLisp.Proofs.Evaluation.Progress
import MiniLisp.Proofs.Evaluation.Budget
import MiniLisp.Proofs.Evaluation.Depth
import MiniLisp.Proofs.Evaluation.Scoping
import MiniLisp.Proofs.Evaluation.Writing
import MiniLisp.Proofs.Evaluation.Faults
import MiniLisp.Proofs.Text.Utf8
import MiniLisp.Proofs.Document.Viability
import MiniLisp.Proofs.Document.Joining
import MiniLisp.Proofs.Number.Spelling
import MiniLisp.Proofs.Datum.Faithful
import MiniLisp.Proofs.Builtin.WellFormed
import MiniLisp.Proofs.Evaluation.WellFormed
import MiniLisp.Proofs.Evaluation.Headstart
import MiniLisp.Proofs.Evaluation.Embedding
import MiniLisp.Proofs.Document.Lossless
import MiniLisp.Proofs.Document.Refusal
import MiniLisp.Proofs.Document.Limit
import MiniLisp.Proofs.Evaluation.Renumbering
import MiniLisp.Proofs.Evaluation.Abreast
import MiniLisp.Proofs.Evaluation.Let
import MiniLisp.Proofs.Evaluation.Application
import MiniLisp.Proofs.Evaluation.Program
import MiniLisp.Proofs.Evaluation.Evaluator
import MiniLisp.Proofs.Session.History
import MiniLisp.Proofs.Session.View
import MiniLisp.Proofs.Session.Bindings
import MiniLisp.Proofs.Text.Locator
import MiniLisp.Proofs.Text.Encoding
import MiniLisp.Proofs.Token.Bytes
import MiniLisp.Proofs.Text.Unreadable
import MiniLisp.Proofs.Token.Segmentation
import MiniLisp.Proofs.Builtin.Equality
import MiniLisp.Proofs.Number.Numeral
import MiniLisp.Proofs.Number.Rounding
import MiniLisp.Proofs.Number.ReadBack
import MiniLisp.Proofs.Builtin.Integers
import MiniLisp.Proofs.Builtin.Results
import MiniLisp.Proofs.Document.Conservation
import MiniLisp.Proofs.Environment.Visible
import MiniLisp.Proofs.Text.Escaped
import MiniLisp.Proofs.Datum.Width
import MiniLisp.Proofs.Document.Relocation
import MiniLisp.Proofs.Document.LineEnds
import MiniLisp.Proofs.Tree.Display
