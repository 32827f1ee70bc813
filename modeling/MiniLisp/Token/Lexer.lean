import MiniLisp.ReadError
import MiniLisp.Text.Locator
import MiniLisp.Text.Utf8
import MiniLisp.Token.Basic

/-!
# From text to tokens

`scan` finds the piece that a non-empty text starts with: a run of white space or one token. `lex`
goes through a text piece by piece and keeps the tokens read before the first failure. A number sign
opens a guarded string if a quote follows it, and a comment otherwise.
-/

namespace MiniLisp

/-- What a text starts with. -/
inductive Piece
  | blank
  | token (kind : TokenKind) (text : Text)
  deriving DecidableEq

/-- A fault, `before` code points further on. -/
structure ScanError where
  before : Nat
  fault : ReadFault
  deriving DecidableEq

/-- The piece that starts with `c`, and how many code points of `rest` belong to it. -/
def scan (c : CodePoint) (rest : Text) : Except ScanError (Piece × Nat) :=
  if c.isBlank then .ok (.blank, (rest.takeWhile CodePoint.isBlank).length)
  else if c = '#' then
    if rest.head? = some (CodePoint.ofChar '"') then
      match guardEnd? (rest.drop 1) with
      | some length => .ok (.token .guarded ((rest.drop 1).take length), length + 3)
      | none => .error ⟨0, .unterminatedGuarded⟩
    else
      let comment := rest.takeWhile (· ≠ CodePoint.ofChar '\n')
      .ok (.token .comment (Text.stripReturns comment), comment.length)
  else if c = '(' then .ok (.token .lparen [c], 0)
  else if c = ')' then .ok (.token .rparen [c], 0)
  else if c = ':' then .ok (.token .colon [c], 0)
  else if c = '"' then
    match readQuoted rest with
    | .closed text length => .ok (.token .quoted text, length)
    | .unterminated => .error ⟨0, .unterminatedString⟩
    | .badEscape before fault => .error ⟨before + 1, .escape fault⟩
  else if c.isBare then
    let more := rest.takeWhile CodePoint.isBare
    .ok (.token .bare (c :: more), more.length)
  else .error ⟨0, .unexpectedCharacter c⟩

/-- The tokens of a text up to its first failure, if there is one. -/
structure Lexed where
  tokens : List Token
  failure : Option ReadError
  deriving DecidableEq

/-- The tokens of a text that starts at `p`. -/
def lexFrom (p : Position) : Text → Lexed
  | [] => ⟨[], none⟩
  | c :: rest =>
    match scan c rest with
    | .error e => ⟨[], some ⟨e.fault, p.after ((c :: rest).take e.before)⟩⟩
    | .ok (piece, more) =>
      let next := lexFrom (p.after (c :: rest.take more)) (rest.drop more)
      match piece with
      | .blank => next
      | .token kind text => { next with tokens := ⟨kind, text, p⟩ :: next.tokens }
termination_by s => s.length
decreasing_by simp only [List.length_drop, List.length_cons]; omega

def lex (t : Text) : Lexed := lexFrom .start t

/-- A document to be read: a text, or bytes that should be UTF-8. -/
inductive Source
  | text (t : Text)
  | bytes (b : List UInt8)

/-- The tokens of a document. Bytes that are not UTF-8 have none. -/
def Source.lex : Source → Lexed
  | .text t => MiniLisp.lex t
  | .bytes b =>
    match Utf8.decode b with
    | (t, none) => MiniLisp.lex t
    | (t, some fault) => ⟨[], some ⟨.invalidByte fault.byte, (Locator.ofText t).locate t.length⟩⟩

end MiniLisp
