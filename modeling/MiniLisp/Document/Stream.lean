import MiniLisp.Document.Body
import MiniLisp.Token.Lexer

/-!
# Reading from a stream of tokens

A `Stream` hands out the tokens of a document one by one, without its comments. The next token can
be looked at before it is taken, and after the last token a failure of the lexer shows once; from
then on the stream is at its end. Reading an item or a body takes what belongs to it and, when it
fails, leaves the token that it failed at as the next one.

* `peek`, `peekKind`, `advance`, `atEnd`: single tokens.
* `item`, `body`, `items`, `entries`, `document`: parts of documents.
-/

namespace MiniLisp

variable {α : Type}

/-- What is left of a document, and what reading has come across. -/
structure Stream where
  /-- The tokens to come. -/
  pending : List Token
  /-- Whether the first of them has been looked at. -/
  peeked : Bool
  /-- The failure that stands after the last token. -/
  failure : Option ReadError
  /-- Where the last token taken starts. -/
  last : Position
  /-- What has happened, the latest first. -/
  events : List Event

/-- An action on a stream: it leaves the stream in a new state even if it fails. -/
abbrev Reader := ExceptT ReadError (StateM Stream)

namespace Stream

def ofLexed (l : Lexed) : Stream where
  pending := l.tokens.filter fun t => !t.isComment
  peeked := false
  failure := l.failure
  last := .start
  events := []

/-- The token that has been looked at and not taken. -/
def buffer (s : Stream) : Option Token := if s.peeked then s.pending.head? else none

/-- The next token, which stays the next one; nothing at the end. -/
def peek : Reader (Option Token) := do
  let s ← get
  match s.pending, s.failure with
  | t :: _, _ =>
    set { s with peeked := true }
    return some t
  | [], some e =>
    set { s with failure := none }
    throw e
  | [], none => return none

/-- Take the next token; nothing at the end. -/
def advance : Reader (Option Token) := do
  let next ← peek
  match next with
  | some t =>
    modify fun s => { s with pending := s.pending.tail, peeked := false, last := t.position }
  | none => pure ()
  return next

/-- The kind of the next token, which stays the next one. -/
def peekKind : Reader (Option TokenKind) := return (← peek).map Token.kind

/-- Whether the body opened at `opener` ends here. A document ends with the input and holds no
further closing parenthesis; any other body ends with one. -/
def atEnd (opener : Option Position) : Reader Bool := do
  match ← peek, opener with
  | some t, none =>
    if t.kind = .rparen then throw ⟨.unexpectedToken t.text, t.position⟩ else return false
  | none, none => return true
  | none, some p => throw ⟨.unclosedParen, p⟩
  | some t, some _ => return t.kind = .rparen

/-- Take tokens until the body is complete or something is wrong. -/
def feed (place : Place) (failure : Option ReadError) (state : Reading.State α) (last : Position)
    (events : List Event) : List Token → Except ReadError (Tree α) × Stream
  | [] =>
    match failure with
    | some e => (.error e, ⟨[], false, none, last, events⟩)
    | none =>
      (state.finish place last, ⟨[], false, none, last, state.commitment place none ++ events⟩)
  | t :: ts =>
    let events := state.commitment place (some t) ++ events
    match state.step place t with
    | .next state => feed place failure state t.position events ts
    | .done value => (.ok value, ⟨t :: ts, true, failure, last, events⟩)
    | .fail e => (.error e, ⟨t :: ts, true, failure, last, events⟩)

/-- Go on with a body from what has been read of it. -/
def resume (place : Place) (reading : Reading α) : Reader (Tree α) :=
  fun s => feed place s.failure ⟨reading, []⟩ s.last s.events s.pending

/-- A body from its start; its closing parenthesis stays. -/
def body (place : Place) : Reader (Tree α) := resume place (.item .empty)

/-- The rest of a list after its first item. -/
def items (place : Place) (first : Tree α) : Reader (Tree α) :=
  resume place (.item (.items [first]))

/-- The rest of a map after its first key: one token, which should be the colon, then the value and
the other entries. -/
def entries (place : Place) (first : Tree α) : Reader (Tree α) := do
  let _ ← advance
  resume place (.item (.value [] first))

/-- An atom, or a body with its parentheses, where a body at `place` may have an item. -/
def item (place : Place) : Reader (Tree α) := do
  match ← peek with
  | none =>
    match place.opener with
    | some p => throw ⟨.unclosedParen, p⟩
    | none => throw ⟨.unexpectedEnd, (← get).last⟩
  | some t =>
    match t.kind, t.kind.form? with
    | _, some form =>
      let _ ← advance
      return .atom ⟨t.text, form⟩
    | .lparen, none =>
      if place.depth + 1 > place.limit then throw ⟨.tooDeep place.limit, t.position⟩
      let _ ← advance
      let value ← body ⟨place.depth + 1, place.limit, some t.position⟩
      let _ ← advance
      return value
    | _, none => throw ⟨.unexpectedToken t.text, t.position⟩

/-- A whole document whose parentheses nest no deeper than `limit`. -/
def document (limit : Int) : Reader (Tree α) := body ⟨0, limit, none⟩

end Stream

/-- What reading a document gave, and what it came across on the way. -/
structure Parsed where
  result : Except ReadError Datum
  events : List Event

/-- Read a whole document whose parentheses nest no deeper than `limit`. -/
def Source.parse (source : Source) (limit : Int) : Parsed :=
  let (result, stream) := (Stream.document limit).run (Stream.ofLexed source.lex)
  ⟨result, stream.events⟩

end MiniLisp
