import MiniLisp.Document.Stream
import MiniLisp.Error
import MiniLisp.Text.LineEnd

/-!
# Reading documents

`Source.read` reads a document under a limit that comes from the settings, and so may be missing. A
document that was stored is read after its bytes have been decoded and its line ends made uniform
(`Source.stored`).
-/

namespace MiniLisp

/-- What came of reading a document, and what happened on the way, the latest first. -/
abbrev Source.Outcome := Except Error Datum × List Event

/-- Read a whole document under a limit on its nesting. -/
def Source.read (source : Source) (limit : Except SettingError Int) : Source.Outcome :=
  match limit with
  | .error e => (.error (.setting e), [])
  | .ok n =>
    let parsed := source.parse n
    (match parsed.result with
      | .ok d => .ok d
      | .error e => .error (.read e), parsed.events)

/-- The bytes that a store keeps for a source: those given, or a text in UTF-8. -/
def Source.toBytes : Source → List UInt8
  | .text t => Utf8.encode t
  | .bytes b => b

/-- The document that a stored source holds. Decoding is strict, so a text with a surrogate in it
does not come back. -/
def Source.stored (source : Source) : Except Error Source :=
  match Utf8.decode source.toBytes with
  | (t, none) => .ok (.text (Text.unifyLineEnds t))
  | (_, some fault) => .error (.encoding fault)

/-- Read a stored document under a limit on its nesting. -/
def Source.load (source : Source) (limit : Except SettingError Int) : Source.Outcome :=
  match source.stored with
  | .ok document => document.read limit
  | .error e => (.error e, [])

end MiniLisp
