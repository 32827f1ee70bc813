import MiniLisp.Document.Stream

/-!
# Positions are passed on

Reading neither compares positions nor computes with them: it takes them from the tokens and hands
them on to the errors. So tokens that are moved elsewhere by any `f : Position → Position` are read
as before, and an error shows where its token has been moved to.

* `Reading.State.step_relocate`: one step, over every state and token.
* `Stream.feed_relocate`: **a whole run**, with everything that the stream is left with.
* `Stream.document_congr`: documents whose tokens are the same up to `f` are read alike up to `f`.
-/

namespace MiniLisp

variable {α : Type} (f : Position → Position)

def Token.relocate (t : Token) : Token := { t with position := f t.position }

def ReadError.relocate (e : ReadError) : ReadError := { e with position := f e.position }

def Place.relocate (place : Place) : Place := { place with opener := place.opener.map f }

def Lexed.relocate (l : Lexed) : Lexed where
  tokens := l.tokens.map (Token.relocate f)
  failure := l.failure.map (ReadError.relocate f)

/-- One more token in front, at places that `f` does not tell apart. -/
theorem Lexed.relocate_cons {kind : TokenKind} {text : Text} {p q : Position} {l l' : Lexed}
    (hplace : f p = f q) (h : l.relocate f = l'.relocate f) :
    Lexed.relocate f { l with tokens := ⟨kind, text, p⟩ :: l.tokens } =
      Lexed.relocate f { l' with tokens := ⟨kind, text, q⟩ :: l'.tokens } := by
  obtain ⟨htokens, hfailure⟩ := Lexed.mk.inj h
  unfold relocate
  rw [List.map_cons, List.map_cons, htokens, hfailure]
  unfold Token.relocate
  rw [hplace]

def Stream.relocate (s : Stream) : Stream :=
  { s with
    pending := s.pending.map (Token.relocate f)
    failure := s.failure.map (ReadError.relocate f)
    last := f s.last }

namespace Reading

def relocate : Reading α → Reading α
  | .item body => .item body
  | .colon first rest key start => .colon first rest key (f start)

def State.relocate (s : State α) : State α where
  reading := s.reading.relocate f
  outer := s.outer.map (Prod.map f id)

def Step.relocate : Step α → Step α
  | .next s => .next (s.relocate f)
  | .done value => .done value
  | .fail e => .fail (e.relocate f)

end Reading

/-! ## One step -/

/-- An item that starts elsewhere goes into a body in the same way. -/
theorem Body.put_relocate (body : Body α) (item : Tree α) (start : Position) :
    (body.put item start).relocate f = body.put item (f start) := by
  cases body with
  | value done key => cases done <;> rfl
  | _ => rfl

namespace Reading.State

variable (place : Place) (s : State α)

theorem depth_relocate : (s.relocate f).depth (place.relocate f) = s.depth place := by
  show place.depth + ((s.outer.map (Prod.map f id)).length : Int) = place.depth + s.outer.length
  rw [List.length_map]

theorem opener?_relocate :
    (s.relocate f).opener? (place.relocate f) = (s.opener? place).map f := by
  obtain ⟨reading, outer⟩ := s
  cases outer <;> rfl

/-- What a body is committed to depends on the kind of the next token only. -/
theorem commitment_relocate (next : Option Token) :
    (s.relocate f).commitment (place.relocate f) (next.map (Token.relocate f)) =
      s.commitment place next := by
  have hdepth := s.depth_relocate f place
  have hkind : (next.map (Token.relocate f)).map Token.kind = next.map Token.kind := by
    cases next <;> rfl
  obtain ⟨reading, outer⟩ := s
  cases reading with
  | colon => rfl
  | item body =>
    cases body with
    | single item =>
      unfold commitment
      rw [hkind, hdepth]
      rfl
    | _ => rfl

theorem close_relocate (value : Tree α) (outer : List (Position × Body α)) (t : Token) :
    close (place.relocate f) value (outer.map (Prod.map f id)) (t.relocate f) =
      (close place value outer t).relocate f := by
  cases outer with
  | nil =>
    obtain ⟨depth, limit, opener⟩ := place
    cases opener <;> rfl
  | cons e outer =>
    obtain ⟨p, body⟩ := e
    show Step.next ⟨body.put value (f p), outer.map (Prod.map f id)⟩ =
      Step.next ⟨(body.put value p).relocate f, outer.map (Prod.map f id)⟩
    rw [Body.put_relocate]

/-- **A step on a moved token is the moved step.** -/
theorem step_relocate (t : Token) :
    (s.relocate f).step (place.relocate f) (t.relocate f) = (s.step place t).relocate f := by
  have hdepth := s.depth_relocate f place
  obtain ⟨reading, outer⟩ := s
  obtain ⟨kind, text, position⟩ := t
  cases reading with
  | colon first rest key start => cases kind <;> rfl
  | item body =>
    -- what an atom and an opening parenthesis do with any body
    have hatom (form : Form) :
        Step.next (State.mk (body.put (.atom ⟨text, form⟩) (f position))
          (outer.map (Prod.map f id))) =
        Step.relocate f (.next ⟨body.put (.atom ⟨text, form⟩) position, outer⟩) := by
      rw [← Body.put_relocate]
      rfl
    have hopen : (if State.depth (place.relocate f) (State.relocate f ⟨.item body, outer⟩) + 1 >
          place.limit
        then Step.fail ⟨.tooDeep place.limit, f position⟩
        else Step.next ⟨.item .empty, (f position, body) :: outer.map (Prod.map f id)⟩) =
        Step.relocate f (if State.depth place ⟨.item body, outer⟩ + 1 > place.limit
          then Step.fail ⟨.tooDeep place.limit, position⟩
          else Step.next ⟨.item .empty, (position, body) :: outer⟩) := by
      rw [hdepth]
      split <;> rfl
    cases kind with
    | bare => cases body <;> exact hatom .bare
    | quoted => cases body <;> exact hatom .quoted
    | guarded => cases body <;> exact hatom .guarded
    | lparen => cases body <;> exact hopen
    | rparen =>
      cases body with
      | empty => exact close_relocate f place (.list []) outer _
      | single a => exact close_relocate f place (.list [a]) outer _
      | items as => exact close_relocate f place (.list as) outer _
      | entries first rest => exact close_relocate f place (.map first.1 first.2 rest) outer _
      | value done key => rfl
    | colon => cases body <;> rfl
    | comment => cases body <;> rfl

/-- The end of the input after moved tokens. -/
theorem finish_relocate (last : Position) :
    (s.relocate f).finish (place.relocate f) (f last) =
      (s.finish place last).mapError (ReadError.relocate f) := by
  have hopener := s.opener?_relocate f place
  obtain ⟨reading, outer⟩ := s
  cases reading with
  | colon => rfl
  | item body =>
    unfold finish
    rw [hopener]
    cases opener? place ⟨.item body, outer⟩ with
    | some p => rfl
    | none => cases body <;> rfl

end Reading.State

/-! ## Whole runs -/

namespace Stream

/-- **Moved tokens are read alike**: with the same value or the moved error, and what is left is
moved. -/
theorem feed_relocate (place : Place) (failure : Option ReadError) (s : Reading.State α)
    (last : Position) (events : List Event) (ts : List Token) :
    feed (place.relocate f) (failure.map (ReadError.relocate f)) (s.relocate f) (f last) events
        (ts.map (Token.relocate f)) =
      Prod.map (Except.mapError (ReadError.relocate f)) (relocate f)
        (feed place failure s last events ts) := by
  induction ts generalizing s last events with
  | nil =>
    cases failure with
    | some e => rfl
    | none =>
      have hfinish := s.finish_relocate f place last
      have hcommitment := s.commitment_relocate f place none
      unfold feed
      rw [Option.map_none] at hcommitment
      simp only [List.map_nil, Option.map_none, hfinish, hcommitment]
      rfl
  | cons t ts ih =>
    have hstep := s.step_relocate f place t
    have hcommitment := s.commitment_relocate f place (some t)
    rw [Option.map_some] at hcommitment
    rw [List.map_cons, feed, feed]
    simp only [hstep, hcommitment]
    cases s.step place t with
    | next state => exact ih state t.position _
    | done value => rfl
    | fail e => rfl

theorem ofLexed_relocate (hf : f .start = .start) (l : Lexed) :
    ofLexed (l.relocate f) = (ofLexed l).relocate f := by
  have hfilter : ∀ ts : List Token,
      (ts.map (Token.relocate f)).filter (fun t => !t.isComment) =
        (ts.filter fun t => !t.isComment).map (Token.relocate f) := by
    intro ts
    rw [List.filter_map]
    rfl
  unfold ofLexed relocate
  rw [hf]
  show Stream.mk ((l.tokens.map (Token.relocate f)).filter fun t => !t.isComment) false
    (l.failure.map (ReadError.relocate f)) .start [] = _
  rw [hfilter]

/-- **Documents whose tokens are the same up to `f` are read alike up to `f`**, and the same
happens on the way. -/
theorem document_congr (hf : f .start = .start) {l l' : Lexed} (h : l.relocate f = l'.relocate f)
    (limit : Int) :
    ((document limit : Reader (Tree α)).run (ofLexed l)).1.mapError (ReadError.relocate f) =
        ((document limit : Reader (Tree α)).run (ofLexed l')).1.mapError (ReadError.relocate f) ∧
      ((document limit : Reader (Tree α)).run (ofLexed l)).2.events =
        ((document limit : Reader (Tree α)).run (ofLexed l')).2.events := by
  have hrun (l : Lexed) : (document limit : Reader (Tree α)).run (ofLexed (l.relocate f)) =
      Prod.map (Except.mapError (ReadError.relocate f)) (relocate f)
        ((document limit : Reader (Tree α)).run (ofLexed l)) := by
    rw [ofLexed_relocate f hf]
    exact feed_relocate f ⟨0, limit, none⟩ l.failure .start .start [] _
  have hsame := (hrun l).symm.trans ((congrArg _ (congrArg ofLexed h)).trans (hrun l'))
  exact ⟨congrArg Prod.fst hsame, congrArg (fun r => r.2.events) hsame⟩

end Stream

end MiniLisp
