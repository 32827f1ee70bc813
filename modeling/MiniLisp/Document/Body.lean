import MiniLisp.Event
import MiniLisp.ReadError
import MiniLisp.Token.Basic
import MiniLisp.Tree

/-!
# Reading bodies

A body is what stands between parentheses, or a whole document: items, or entries `key: value`. It
is read token by token. The first item leaves it open which of the two the body is; a colon right
after it makes the body a map, anything else a list, and from then on the two do not mix.

`Reading` is how far the innermost body has got, `Reading.State` adds the bodies around it, and
`State.step` takes one more token. A step is **final**: it accepts the token, or finds the body
complete in front of it, or fails, and no later token can change that. No token makes a leaf, so a
body read from its start is a `Datum`; the items it goes on from may be any trees.
-/

namespace MiniLisp

variable {α : Type}

/-- A body that waits for an item. -/
inductive Body (α : Type)
  /-- Nothing read yet. -/
  | empty
  /-- One item, which may be the first of a list or the first key of a map. -/
  | single (item : Tree α)
  | items (items : List (Tree α))
  /-- A map with all its entries complete. -/
  | entries (first : Tree α × Tree α) (rest : List (Tree α × Tree α))
  /-- A map after a colon: the complete entries, and the key whose value comes next. -/
  | value (done : List (Tree α × Tree α)) (key : Tree α)

/-- How far the innermost body has got: it waits for an item, or it is a map with complete entries
and waits for the colon after a further key, which started at `start`. -/
inductive Reading (α : Type)
  | item (body : Body α)
  | colon (first : Tree α × Tree α) (rest : List (Tree α × Tree α)) (key : Tree α)
      (start : Position)

namespace Body

/-- The body with one more item, which started at `start`. -/
def put (item : Tree α) (start : Position) : Body α → Reading α
  | .empty => .item (.single item)
  | .single a => .item (.items [a, item])
  | .items as => .item (.items (as ++ [item]))
  | .entries first rest => .colon first rest item start
  | .value [] key => .item (.entries (key, item) [])
  | .value (first :: rest) key => .item (.entries first (rest ++ [(key, item)]))

/-- The list or map, unless a value is missing. -/
def finish? : Body α → Option (Tree α)
  | .empty => some (.list [])
  | .single a => some (.list [a])
  | .items as => some (.list as)
  | .entries (k, v) rest => some (.map k v rest)
  | .value _ _ => none

end Body

/-- Where a body stands: how deep, how deep its parts may nest, and where it was opened, unless it
is a whole document. -/
structure Place where
  depth : Int
  limit : Int
  opener : Option Position

namespace Reading

/-- The innermost body, and the bodies around it from the inside out, each with the place of the
parenthesis that interrupted it. -/
structure State (α : Type) where
  reading : Reading α
  outer : List (Position × Body α)

/-- What one more token does. -/
inductive Step (α : Type)
  /-- The token is taken in. -/
  | next (state : State α)
  /-- The outermost body was complete before the token. -/
  | done (value : Tree α)
  | fail (error : ReadError)

namespace State

/-- Nothing read yet. -/
def start : State α := ⟨.item .empty, []⟩

/-- The depth of the innermost body. -/
def depth (place : Place) (s : State α) : Int := place.depth + s.outer.length

/-- Where the innermost body was opened. -/
def opener? (place : Place) (s : State α) : Option Position :=
  match s.outer with
  | (p, _) :: _ => some p
  | [] => place.opener

/-- A closing parenthesis after the complete body `value`. -/
def close (place : Place) (value : Tree α) (outer : List (Position × Body α)) (t : Token) :
    Step α :=
  match outer with
  | (p, body) :: outer => .next ⟨body.put value p, outer⟩
  | [] =>
    if place.opener.isSome then .done value else .fail ⟨.unexpectedToken t.text, t.position⟩

/-- One more token, other than a comment. -/
def step (place : Place) (s : State α) (t : Token) : Step α :=
  match s.reading, t.kind with
  | .colon first rest key _, .colon => .next ⟨.item (.value (first :: rest) key), s.outer⟩
  | .colon _ _ _ start, .rparen => .fail ⟨.missingColon, start⟩
  | .colon _ _ _ start, _ => .fail ⟨.itemInMap, start⟩
  | .item (.single key), .colon => .next ⟨.item (.value [] key), s.outer⟩
  | .item (.items _), .colon => .fail ⟨.colonInList, t.position⟩
  | .item (.value _ _), .colon => .fail ⟨.missingValue t.text, t.position⟩
  | .item _, .colon => .fail ⟨.unexpectedToken t.text, t.position⟩
  | .item body, .rparen =>
    match body.finish? with
    | some value => close place value s.outer t
    | none => .fail ⟨.missingValue t.text, t.position⟩
  | .item body, .lparen =>
    if s.depth place + 1 > place.limit then .fail ⟨.tooDeep place.limit, t.position⟩
    else .next ⟨.item .empty, (t.position, body) :: s.outer⟩
  | .item body, kind =>
    match kind.form? with
    | some form => .next ⟨body.put (.atom ⟨t.text, form⟩) t.position, s.outer⟩
    | none => .next s

/-- The end of the input, after a last token at `last`. -/
def finish (place : Place) (s : State α) (last : Position) : Except ReadError (Tree α) :=
  match s.reading, s.opener? place with
  | .colon _ _ _ start, _ => .error ⟨.missingColon, start⟩
  | .item _, some p => .error ⟨.unclosedParen, p⟩
  | .item body, none =>
    match body.finish? with
    | some value => .ok value
    | none => .error ⟨.unexpectedEnd, last⟩

/-- The event that the next token, or the end of the input, brings about: after its first item a
body becomes a map or a list. -/
def commitment (place : Place) (s : State α) (next : Option Token) : List Event :=
  match s.reading with
  | .item (.single _) =>
    [.committed (s.depth place) (if next.map Token.kind = some .colon then .map else .list)]
  | _ => []

end State

end Reading

end MiniLisp
