import Mathlib.Data.List.Forall2
import MiniLisp.Proofs.Document.Viability

/-!
# A stream keeps its tokens

A stream can be asked for single tokens and for parts of a document in any order, and it goes on
after a failure. **Whatever is asked, no token is lost, repeated or put in another place**
(`Stream.session_keeps_tokens`): those taken so far, the one that has been looked at, and those
still to come are the tokens of the document.

* `Stream.Hands s ts s'`: from `s` to `s'` by looking at tokens that are there and taking some of
  them, one by one; `ts` are those taken.
* `Stream.Passes`: the three ways in which a request ends. Either the tokens that are there decide
  it, or one more is asked for than there are and the failure of the lexer shows.
* `Stream.Proceeds`: a request ends in one of these ways, and unless the failure shows, nothing that
  stands after the tokens could have changed its course. Every reader is put together from readers
  that do (`Proceeds.bind`), and a row of requests from single ones (`exists_taken`).
-/

namespace MiniLisp

variable {α β γ : Type}

/-- The error is about this token, which cannot stand where it stands. -/
inductive ReadError.Blames : ReadError → Token → Prop
  | unexpected (t : Token) : Blames ⟨.unexpectedToken t.text, t.position⟩ t
  | missingValue (t : Token) : Blames ⟨.missingValue t.text, t.position⟩ t
  | colonInList (t : Token) : t.kind = .colon → Blames ⟨.colonInList, t.position⟩ t
  | tooDeep (t : Token) (limit : Int) : t.kind = .lparen → Blames ⟨.tooDeep limit, t.position⟩ t

/-- Whether a fault is that of one token, which is refused. -/
def ReadFault.isOfToken : ReadFault → Bool
  | .unexpectedToken _ | .missingValue _ | .colonInList | .tooDeep _ => true
  | _ => false

theorem Reading.State.step_fail_blames {place : Place} {s : Reading.State α} {t : Token}
    {e : ReadError} (h : s.step place t = .fail e) (hfault : e.fault.isOfToken = true) :
    e.Blames t := by
  unfold step at h
  split at h
  case h_5 hk => cases h; exact .colonInList t hk
  case h_6 => cases h; exact .missingValue t
  case h_7 => cases h; exact .unexpected t
  case h_8 =>
    split at h
    · unfold close at h
      split at h
      · cases h
      · split at h <;> cases h
        exact .unexpected t
    · cases h; exact .missingValue t
  case h_9 hk =>
    split at h <;> cases h
    exact .tooDeep t _ hk
  case h_10 => split at h <;> cases h
  -- the other failures are about keys
  all_goals cases h
  all_goals cases hfault

theorem Reading.State.finish_isOfToken {place : Place} {s : Reading.State α} {last : Position}
    {e : ReadError} (h : s.finish place last = .error e) : e.fault.isOfToken = false := by
  unfold finish at h
  split at h
  · cases h; rfl
  · cases h; rfl
  · split at h <;> cases h
    rfl

namespace Stream

/-- The tokens after the one that has been looked at. -/
def unread (s : Stream) : List Token := if s.peeked then s.pending.tail else s.pending

/-- Nothing is left, and nothing is wrong after the last token. -/
def AtEnd (s : Stream) : Prop := s.pending = [] ∧ s.failure = none

/-- A token that has been looked at is there. -/
def WellFormed (s : Stream) : Prop := s.peeked = true → s.pending ≠ []

/-- The stream with other tokens, and another failure or none, after its own. -/
def followedBy (s : Stream) (more : List Token) (failure : Option ReadError) : Stream :=
  { s with pending := s.pending ++ more, failure }

theorem buffer_append_unread (s : Stream) : s.buffer.toList ++ s.unread = s.pending := by
  cases hpeeked : s.peeked <;> cases hpending : s.pending <;>
    simp [buffer, unread, hpeeked, hpending]

theorem wellFormed_ofLexed (l : Lexed) : (ofLexed l).WellFormed := nofun

/-! ## Looking and taking -/

variable {s s' s'' : Stream} {t : Token} {ts ts' : List Token} {e : ReadError}

theorem peek_cons (h : s.pending = t :: ts) :
    peek.run s = (.ok (some t), { s with peeked := true }) := by
  rcases s with ⟨_ | ⟨u, us⟩, peeked, failure, last, events⟩ <;> cases h
  rfl

theorem peek_end (h : s.AtEnd) : peek.run s = (.ok none, s) := by
  obtain ⟨pending, peeked, failure, last, events⟩ := s
  obtain ⟨rfl, rfl⟩ : pending = [] ∧ failure = none := h
  rfl

theorem peek_broken (h : s.pending = []) (he : s.failure = some e) :
    peek.run s = (.error e, { s with failure := none }) := by
  obtain ⟨pending, peeked, failure, last, events⟩ := s
  obtain ⟨rfl, rfl⟩ : pending = [] ∧ failure = some e := ⟨h, he⟩
  rfl

theorem advance_cons (h : s.pending = t :: ts) :
    advance.run s =
      (.ok (some t), { s with pending := ts, peeked := false, last := t.position }) := by
  rcases s with ⟨_ | ⟨u, us⟩, peeked, failure, last, events⟩ <;> cases h
  rfl

/-- **One token after the other.** The stream comes from `s` to `s'` by looking at tokens that are
there and by taking some of them; `ts` are those taken, in this order. What is logged on the way
does not matter. -/
inductive Hands : Stream → List Token → Stream → Prop
  | refl (s : Stream) : Hands s [] s
  | log {s s' : Stream} {ts : List Token} (events : List Event) :
      Hands { s with events } ts s' → Hands s ts s'
  | peek {s s₁ s' : Stream} {t : Token} {ts : List Token} :
      Stream.peek.run s = (.ok (some t), s₁) → Hands s₁ ts s' → Hands s ts s'
  | advance {s s₁ s' : Stream} {t : Token} {ts : List Token} :
      Stream.advance.run s = (.ok (some t), s₁) → Hands s₁ ts s' → Hands s (t :: ts) s'

namespace Hands

theorem trans (h : Hands s ts s') (h' : Hands s' ts' s'') : Hands s (ts ++ ts') s'' := by
  induction h with
  | refl => exact h'
  | log events _ ih => exact .log events (ih h')
  | peek hpeek _ ih => exact .peek hpeek (ih h')
  | advance htake _ ih => exact .advance htake (ih h')

theorem peeked (h : s.pending = t :: ts) : Hands s [] { s with peeked := true } :=
  .peek (peek_cons h) (.refl _)

/-- A look at a token finds the next one. -/
theorem exists_of_peek {s₁ : Stream} (h : Stream.peek.run s = (.ok (some t), s₁)) :
    ∃ rest, s.pending = t :: rest ∧ s₁ = { s with peeked := true } := by
  rcases s with ⟨_ | ⟨u, us⟩, peeked, failure, last, events⟩
  · cases failure <;> cases h
  · cases h
    exact ⟨us, rfl, rfl⟩

theorem exists_of_advance {s₁ : Stream} (h : Stream.advance.run s = (.ok (some t), s₁)) :
    ∃ rest, s.pending = t :: rest ∧
      s₁ = { s with pending := rest, peeked := false, last := t.position } := by
  rcases s with ⟨_ | ⟨u, us⟩, peeked, failure, last, events⟩
  · cases failure <;> cases h
  · cases h
    exact ⟨us, rfl, rfl⟩

/-- What is handed over and what is left make up what there was. -/
theorem pending_eq (h : Hands s ts s') : s.pending = ts ++ s'.pending := by
  induction h with
  | refl => rfl
  | log _ _ ih => exact ih
  | peek hpeek _ ih =>
    obtain ⟨rest, -, rfl⟩ := exists_of_peek hpeek
    exact ih
  | advance htake _ ih =>
    obtain ⟨rest, hpending, rfl⟩ := exists_of_advance htake
    rw [hpending, List.cons_append, ← ih]

theorem failure_eq (h : Hands s ts s') : s'.failure = s.failure := by
  induction h with
  | refl => rfl
  | log _ _ ih => exact ih
  | peek hpeek _ ih =>
    obtain ⟨rest, -, rfl⟩ := exists_of_peek hpeek
    exact ih
  | advance htake _ ih =>
    obtain ⟨rest, -, rfl⟩ := exists_of_advance htake
    exact ih

/-- The last place is that of the last token handed over. -/
theorem last_eq (h : Hands s ts s') :
    s'.last = ((ts.getLast?).map Token.position).getD s.last := by
  induction h with
  | refl => rfl
  | log _ _ ih => exact ih
  | peek hpeek _ ih =>
    obtain ⟨rest, -, rfl⟩ := exists_of_peek hpeek
    exact ih
  | @advance s s₁ s' t ts htake _ ih =>
    obtain ⟨rest, -, rfl⟩ := exists_of_advance htake
    rw [ih, List.getLast?_cons]
    cases ts.getLast? <;> rfl

theorem wellFormed (h : Hands s ts s') (hs : s.WellFormed) : s'.WellFormed := by
  induction h with
  | refl => exact hs
  | log _ _ ih => exact ih hs
  | peek hpeek _ ih =>
    obtain ⟨rest, hpending, rfl⟩ := exists_of_peek hpeek
    exact ih fun _ => by simp [hpending]
  | advance htake _ ih =>
    obtain ⟨rest, -, rfl⟩ := exists_of_advance htake
    exact ih nofun

end Hands

/-! ## Requests in general -/

/-- How a request ends that starts at `s` and takes `ts`. -/
inductive Passes (s : Stream) : List Token → Except ReadError β × Stream → Prop
  /-- It has an answer. -/
  | ok {ts : List Token} {s' : Stream} (a : β) : Hands s ts s' → Passes s ts (.ok a, s')
  /-- It is refused for the sequence of tokens, and a token that is refused stays the next one. -/
  | refused {ts : List Token} {s' : Stream} {e : ReadError} : Hands s ts s' →
      e.fault.isSyntactic = true →
      (e.fault.isOfToken = true → ∃ t, s'.buffer = some t ∧ e.Blames t) → Passes s ts (.error e, s')
  /-- It asks for one token more than there are, and the failure of the lexer shows. -/
  | broken {ts : List Token} {s₁ s' : Stream} {e : ReadError} : Hands s ts s₁ →
      peek.run s₁ = (.error e, s') → Passes s ts (.error e, s')

theorem Passes.after (h : Hands s ts s') {r : Except ReadError β × Stream} (hr : Passes s' ts' r) :
    Passes s (ts ++ ts') r := by
  cases hr with
  | ok a h' => exact .ok a (h.trans h')
  | refused h' hfault hblames => exact .refused (h.trans h') hfault hblames
  | broken h' hpeek => exact .broken (h.trans h') hpeek

/-- A look that fails has nothing left to look at, and takes the failure away. -/
theorem exists_of_peek_error (h : peek.run s = (.error e, s')) :
    s.pending = [] ∧ s.failure = some e ∧ s' = { s with failure := none } := by
  rcases s with ⟨_ | ⟨u, us⟩, peeked, failure, last, events⟩
  · cases failure <;> cases h
    exact ⟨rfl, rfl, rfl⟩
  · cases h

namespace Passes

variable {r : Except ReadError β × Stream}

theorem pending_eq (h : Passes s ts r) : s.pending = ts ++ r.2.pending := by
  cases h with
  | ok a hands => exact hands.pending_eq
  | refused hands => exact hands.pending_eq
  | broken hands hpeek =>
    obtain ⟨-, -, rfl⟩ := exists_of_peek_error hpeek
    exact hands.pending_eq

theorem last_eq (h : Passes s ts r) :
    r.2.last = ((ts.getLast?).map Token.position).getD s.last := by
  cases h with
  | ok a hands => exact hands.last_eq
  | refused hands => exact hands.last_eq
  | broken hands hpeek =>
    obtain ⟨-, -, rfl⟩ := exists_of_peek_error hpeek
    exact hands.last_eq

theorem wellFormed (h : Passes s ts r) (hs : s.WellFormed) : r.2.WellFormed := by
  cases h with
  | ok a hands => exact hands.wellFormed hs
  | refused hands => exact hands.wellFormed hs
  | broken hands hpeek =>
    obtain ⟨-, -, rfl⟩ := exists_of_peek_error hpeek
    exact hands.wellFormed hs

/-- The failure of the lexer stays where it is, or it shows and nothing is left. -/
theorem failure_cases (h : Passes s ts r) :
    (r.2.failure = s.failure ∧ ∀ e, r.1 = .error e → e.fault.isSyntactic = true) ∨
      ∃ e, s.failure = some e ∧ r.1 = .error e ∧ r.2.AtEnd := by
  cases h with
  | ok a hands => exact .inl ⟨hands.failure_eq, nofun⟩
  | refused hands hfault =>
    refine .inl ⟨hands.failure_eq, fun e he => ?_⟩
    rwa [← Except.error.inj he]
  | broken hands hpeek =>
    obtain ⟨hpending, hfailure, rfl⟩ := exists_of_peek_error hpeek
    exact .inr ⟨_, hands.failure_eq ▸ hfailure, rfl, hpending, rfl⟩

end Passes

/-- **A request proceeds in order**: it ends in one of the three ways, and while there is a failure
after the last token, either that failure shows or the request would have gone the same whatever
stood there. -/
structure Proceeds (x : Reader β) (s : Stream) : Prop where
  passes : ∃ ts, Passes s ts (x.run s)
  blind : ∀ e, s.failure = some e → (x.run s).1 = .error e ∨ ∀ more failure,
    x.run (s.followedBy more failure) = ((x.run s).1, (x.run s).2.followedBy more failure)

section Bind

variable {x : Reader β} {a : β}

theorem run_bind (x : Reader β) (f : β → Reader γ) (s : Stream) :
    (x >>= f).run s = (ExceptT.bindCont f (x.run s).1) (x.run s).2 := rfl

theorem run_bind_ok (h : x.run s = (.ok a, s')) (f : β → Reader γ) :
    (x >>= f).run s = (f a).run s' := by
  rw [run_bind, h]
  rfl

theorem run_bind_error (h : x.run s = (.error e, s')) (f : β → Reader γ) :
    (x >>= f).run s = (.error e, s') := by
  rw [run_bind, h]
  rfl

end Bind

namespace Proceeds

variable {x : Reader β}

theorem pure (a : β) (s : Stream) : Proceeds (Pure.pure a) s :=
  ⟨⟨[], .ok a (.refl s)⟩, fun _ _ => .inr fun _ _ => rfl⟩

theorem refuse (s : Stream) (hfault : e.fault.isSyntactic = true)
    (hblames : e.fault.isOfToken = true → ∃ t, s.buffer = some t ∧ e.Blames t) :
    Proceeds (throw e : Reader β) s :=
  ⟨⟨[], .refused (.refl s) hfault hblames⟩, fun _ _ => .inr fun _ _ => rfl⟩

theorem bind {f : β → Reader γ} (hs : s.WellFormed) (hx : Proceeds x s)
    (hf : ∀ a s', x.run s = (.ok a, s') → s'.WellFormed → Proceeds (f a) s') :
    Proceeds (x >>= f) s := by
  obtain ⟨⟨ts, hpasses⟩, hblind⟩ := hx
  rcases hr : x.run s with ⟨r, s'⟩
  rw [hr] at hpasses hblind
  cases hpasses with
  | ok a hands =>
    obtain ⟨⟨ts', hpasses'⟩, hblind'⟩ := hf a s' hr (hands.wellFormed hs)
    have hrun := run_bind_ok hr f
    refine ⟨⟨ts ++ ts', hrun ▸ hpasses'.after hands⟩, fun e he => ?_⟩
    have hsame := (hblind e he).resolve_left nofun
    refine (hblind' e (hands.failure_eq.trans he)).imp (fun h => hrun ▸ h) fun h more failure => ?_
    rw [run_bind_ok (hsame more failure), hrun]
    exact h more failure
  | refused hands hfault hblames =>
    have hrun := run_bind_error hr f
    refine ⟨⟨ts, hrun ▸ .refused hands hfault hblames⟩, fun e he => ?_⟩
    rw [hrun]
    refine (hblind e he).imp (fun h => congrArg _ (Except.error.inj h)) fun h more failure => ?_
    exact run_bind_error (h more failure) f
  | broken hands hpeek =>
    have hrun := run_bind_error hr f
    refine ⟨⟨ts, hrun ▸ .broken hands hpeek⟩, fun e he => .inl ?_⟩
    have hfailure := (exists_of_peek_error hpeek).2.1
    rw [hrun, ← Option.some.inj (hfailure.symm.trans (hands.failure_eq.trans he))]

end Proceeds

/-! ## The readers one by one -/

theorem buffer_of_peek (h : peek.run s = (.ok (some t), s')) : s'.buffer = some t := by
  obtain ⟨rest, hpending, rfl⟩ := Hands.exists_of_peek h
  simp [buffer, hpending]

theorem peek_passes (s : Stream) : Passes s [] (peek.run s) := by
  rcases hpending : s.pending with _ | ⟨t, rest⟩
  · rcases hfailure : s.failure with _ | e
    · rw [peek_end ⟨hpending, hfailure⟩]
      exact .ok none (.refl s)
    · have hpeek := peek_broken hpending hfailure
      rw [hpeek]
      exact .broken (.refl s) hpeek
  · rw [peek_cons hpending]
    exact .ok _ (.peeked hpending)

theorem pending_followedBy (h : s.pending = t :: ts) (more : List Token)
    (failure : Option ReadError) : (s.followedBy more failure).pending = t :: (ts ++ more) := by
  rw [followedBy, h, List.cons_append]

theorem proceeds_peek (s : Stream) : Proceeds peek s := by
  refine ⟨⟨[], peek_passes s⟩, fun e he => ?_⟩
  rcases hpending : s.pending with _ | ⟨t, rest⟩
  · exact .inl (by rw [peek_broken hpending he])
  · refine .inr fun more failure => ?_
    rw [peek_cons hpending, peek_cons (pending_followedBy hpending more failure)]
    rfl

theorem proceeds_advance (s : Stream) : Proceeds advance s := by
  rcases hpending : s.pending with _ | ⟨t, rest⟩
  · -- there is nothing to take, so this is a look
    have hrun : advance.run s = peek.run s := by
      obtain ⟨pending, peeked, failure, last, events⟩ := s
      obtain rfl : pending = [] := hpending
      cases failure <;> rfl
    refine ⟨⟨[], hrun ▸ peek_passes s⟩, fun e he => .inl ?_⟩
    rw [hrun, peek_broken hpending he]
  · have hrun := advance_cons hpending
    refine ⟨⟨[t], hrun ▸ .ok _ (.advance hrun (.refl _))⟩, fun e he => .inr fun more failure => ?_⟩
    rw [hrun, advance_cons (pending_followedBy hpending more failure)]
    rfl

theorem proceeds_peekKind (hs : s.WellFormed) : Proceeds peekKind s :=
  .bind hs (proceeds_peek s) fun _ s' _ _ => .pure _ s'

theorem proceeds_atEnd (hs : s.WellFormed) (opener : Option Position) :
    Proceeds (atEnd opener) s := by
  refine .bind hs (proceeds_peek s) fun next s' hpeek _ => ?_
  match next, opener with
  | none, none => exact .pure _ s'
  | none, some p => exact .refuse s' rfl nofun
  | some t, some p => exact .pure _ s'
  | some t, none =>
    dsimp only
    split
    · exact .refuse s' rfl fun _ => ⟨t, buffer_of_peek hpeek, .unexpected t⟩
    · exact .pure _ s'

section Feed

variable (place : Place) (state : Reading.State α) (last : Position) (events : List Event)

/-- Tokens are taken one by one until the body is complete or something is wrong. -/
theorem feed_passes (failure : Option ReadError) (before : List Event) {peeked : Bool}
    (h : peeked = true → ts ≠ []) :
    ∃ taken, Passes ⟨ts, peeked, failure, last, before⟩ taken
      (feed place failure state last events ts) := by
  induction ts generalizing state last events before peeked with
  | nil =>
    obtain rfl : peeked = false := by simpa using h
    refine ⟨[], ?_⟩
    have hands (events : List Event) : Hands ⟨[], false, failure, last, before⟩ []
        ⟨[], false, failure, last, events⟩ := .log events (.refl _)
    cases failure with
    | some e => exact .broken (hands events) rfl
    | none =>
      rw [feed]
      cases hfinish : state.finish place last with
      | ok v => exact .ok v (hands _)
      | error e =>
        refine .refused (hands _) (Reading.State.finish_error hfinish) fun hfault => ?_
        rw [Reading.State.finish_isOfToken hfinish] at hfault
        cases hfault
  | cons t ts ih =>
    have hands (events : List Event) : Hands ⟨t :: ts, peeked, failure, last, before⟩ []
        ⟨t :: ts, true, failure, last, events⟩ := .log events (.peeked rfl)
    rw [feed]
    cases hstep : state.step place t with
    | next state' =>
      have hnext : false = true → ts ≠ [] := fun h => absurd h Bool.false_ne_true
      obtain ⟨taken, hpasses⟩ :=
        ih state' t.position (state.commitment place (some t) ++ events) before hnext
      have htake : Hands ⟨t :: ts, peeked, failure, last, before⟩ [t]
          ⟨ts, false, failure, t.position, before⟩ := .advance (advance_cons rfl) (.refl _)
      exact ⟨t :: taken, hpasses.after htake⟩
    | done v => exact ⟨[], .ok v (hands _)⟩
    | fail e =>
      refine ⟨[], .refused (hands _) (Reading.State.step_fail hstep) fun hfault => ?_⟩
      exact ⟨t, rfl, Reading.State.step_fail_blames hstep hfault⟩

/-- Before the end nothing depends on what comes after it. -/
theorem feed_blind (e : ReadError) (ts : List Token) :
    (feed place (some e) state last events ts).1 = .error e ∨ ∀ more failure,
      feed place failure state last events (ts ++ more) =
        ((feed place (some e) state last events ts).1,
          (feed place (some e) state last events ts).2.followedBy more failure) := by
  induction ts generalizing state last events with
  | nil => exact .inl rfl
  | cons t ts ih =>
    simp only [List.cons_append, feed]
    cases hstep : state.step place t with
    | next state' => exact ih state' t.position _
    | done v => exact .inr fun more failure => rfl
    | fail e' => exact .inr fun more failure => rfl

end Feed

theorem proceeds_resume (hs : s.WellFormed) (place : Place) (reading : Reading α) :
    Proceeds (resume place reading) s := by
  refine ⟨feed_passes place _ s.last s.events s.failure s.events hs, fun e he => ?_⟩
  have hblind := feed_blind place ⟨reading, []⟩ s.last s.events e s.pending
  rw [← he] at hblind
  exact hblind

theorem proceeds_entries (hs : s.WellFormed) (place : Place) (first : Tree α) :
    Proceeds (entries place first) s :=
  .bind hs (proceeds_advance s) fun _ _ _ hs' => proceeds_resume hs' place _

theorem proceeds_item (hs : s.WellFormed) (place : Place) :
    Proceeds (item place : Reader (Tree α)) s := by
  refine .bind hs (proceeds_peek s) fun next s' hpeek hs' => ?_
  cases next with
  | none =>
    cases hopener : place.opener with
    | some p => exact .refuse s' rfl nofun
    | none => exact ⟨⟨[], .refused (.refl s') rfl nofun⟩, fun _ _ => .inr fun _ _ => rfl⟩
  | some t =>
    have hbuffer := buffer_of_peek hpeek
    dsimp only
    split
    · exact .bind hs' (proceeds_advance s') fun _ s'' _ _ => .pure _ s''
    · rename_i hkind _
      split
      · have hrefuse : Proceeds (throw ⟨.tooDeep place.limit, t.position⟩ : Reader PUnit) s' :=
          .refuse s' rfl fun _ => ⟨t, hbuffer, .tooDeep t _ hkind⟩
        exact .bind hs' hrefuse fun _ _ h => nomatch h
      · refine .bind hs' (proceeds_advance s') fun _ s₁ _ hs₁ => ?_
        refine .bind hs₁ (proceeds_resume hs₁ _ _) fun _ s₂ _ hs₂ => ?_
        exact .bind hs₂ (proceeds_advance s₂) fun _ s₃ _ _ => .pure _ s₃
    · exact .refuse s' rfl fun _ => ⟨t, hbuffer, .unexpected t⟩

/-! ## Sessions -/

/-- What a stream can be asked for. -/
inductive Request (α : Type)
  | peek
  | advance
  | peekKind
  | atEnd (opener : Option Position)
  | item (place : Place)
  | body (place : Place)
  | items (place : Place) (first : Tree α)
  | entries (place : Place) (first : Tree α)
  | document (limit : Int)

/-- What the stream answers. -/
inductive Answer (α : Type)
  | token (next : Option Token)
  | kind (next : Option TokenKind)
  | atEnd (isAtEnd : Bool)
  | tree (value : Tree α)

namespace Request

def run : Request α → Reader (Answer α)
  | .peek => return .token (← Stream.peek)
  | .advance => return .token (← Stream.advance)
  | .peekKind => return .kind (← Stream.peekKind)
  | .atEnd opener => return .atEnd (← Stream.atEnd opener)
  | .item place => return .tree (← Stream.item place)
  | .body place => return .tree (← Stream.body place)
  | .items place first => return .tree (← Stream.items place first)
  | .entries place first => return .tree (← Stream.entries place first)
  | .document limit => return .tree (← Stream.document limit)

/-- Whether the request is only about what comes next. -/
def isLook : Request α → Bool
  | .peek | .peekKind | .atEnd _ => true
  | _ => false

theorem proceeds (q : Request α) (hs : s.WellFormed) : Proceeds q.run s := by
  have answer {β : Type} {x : Reader β} (f : β → Answer α) (hx : Proceeds x s) :
      Proceeds (x >>= fun a => Pure.pure (f a)) s :=
    .bind hs hx fun a s' _ _ => .pure (f a) s'
  cases q with
  | peek => exact answer _ (proceeds_peek s)
  | advance => exact answer _ (proceeds_advance s)
  | peekKind => exact answer _ (proceeds_peekKind hs)
  | atEnd opener => exact answer _ (proceeds_atEnd hs opener)
  | item place => exact answer _ (proceeds_item hs place)
  | body place => exact answer _ (proceeds_resume hs place _)
  | items place first => exact answer _ (proceeds_resume hs place _)
  | entries place first => exact answer _ (proceeds_entries hs place first)
  | document limit => exact answer _ (proceeds_resume hs _ _)

/-- A look takes nothing, whatever is said about what it has seen. -/
theorem pending_bind {x : Reader β} {f : β → Reader γ} (hx : (x.run s).2.pending = s.pending)
    (hf : ∀ a s', ((f a).run s').2 = s') : ((x >>= f).run s).2.pending = s.pending := by
  rcases hr : x.run s with ⟨_ | a, s'⟩
  · rw [run_bind_error hr, ← hx, hr]
  · rw [run_bind_ok hr, hf, ← hx, hr]

theorem pending_of_isLook {q : Request α} (hlook : q.isLook = true) (s : Stream) :
    (q.run.run s).2.pending = s.pending := by
  have hpeek : (Stream.peek.run s).2.pending = s.pending := (peek_passes s).pending_eq.symm
  cases q with
  | peek => exact pending_bind hpeek fun _ _ => rfl
  | peekKind => exact pending_bind (pending_bind hpeek fun _ _ => rfl) fun _ _ => rfl
  | atEnd opener =>
    refine pending_bind (pending_bind hpeek fun next s' => ?_) fun _ _ => rfl
    match next, opener with
    | none, none => rfl
    | none, some _ => rfl
    | some _, some _ => rfl
    | some t, none =>
      dsimp only
      split <;> rfl
  | _ => cases hlook

end Request

/-- One request, and what came of it. -/
structure Turn (α : Type) where
  request : Request α
  before : Stream
  result : Except ReadError (Answer α)
  after : Stream

/-- The requests in a row, each to the stream that the one before it has left, failed or not. -/
def turns (s : Stream) : List (Request α) → List (Turn α)
  | [] => []
  | q :: qs => ⟨q, s, (q.run.run s).1, (q.run.run s).2⟩ :: turns (q.run.run s).2 qs

/-- The stream that the requests leave. -/
def after (s : Stream) (qs : List (Request α)) : Stream :=
  qs.foldl (fun s q => (q.run.run s).2) s

namespace Turn

/-- Whether the failure of the lexer shows. -/
def isBroken (x : Turn α) : Bool :=
  match x.result with
  | .ok _ => false
  | .error e => !e.fault.isSyntactic

theorem isBroken_iff (x : Turn α) :
    x.isBroken = true ↔ ∃ e, x.result = .error e ∧ e.fault.isSyntactic = false := by
  obtain ⟨q, s, _ | a, s'⟩ := x <;> simp [isBroken]

/-- The request takes the tokens `ts`, a look none; and it has not asked for more tokens than there
are, since others could not have changed its course, unless the failure after them shows. -/
structure Takes (x : Turn α) (ts : List Token) : Prop where
  passes : x.before.Passes ts (x.result, x.after)
  look : x.request.isLook = true → ts = []
  blind : ∀ e, x.before.failure = some e → x.result = .error e ∨ ∀ more failure,
    x.request.run.run (x.before.followedBy more failure) =
      (x.result, x.after.followedBy more failure)

end Turn

/-- What the requests take, each with its own tokens, and what they leave make up what there was. -/
theorem exists_taken (hs : s.WellFormed) (qs : List (Request α)) :
    ∃ taken : List (List Token), List.Forall₂ Turn.Takes (s.turns qs) taken ∧
      s.pending = taken.flatten ++ (s.after qs).pending ∧
      (s.after qs).last = ((taken.flatten.getLast?).map Token.position).getD s.last := by
  induction qs generalizing s with
  | nil => exact ⟨[], .nil, rfl, rfl⟩
  | cons q qs ih =>
    obtain ⟨⟨ts, hpasses⟩, hblind⟩ := q.proceeds hs
    obtain ⟨taken, htaken, hpending, hlast⟩ := ih (hpasses.wellFormed hs)
    have hlook (h : q.isLook = true) : ts = [] := by
      have := hpasses.pending_eq
      rwa [Request.pending_of_isLook h, List.self_eq_append_left] at this
    refine ⟨ts :: taken, .cons ⟨hpasses, hlook, hblind⟩ htaken, ?_, ?_⟩
    · rw [hpasses.pending_eq, hpending, List.flatten_cons, List.append_assoc]
      rfl
    · rw [after, List.foldl_cons, ← after, hlast, hpasses.last_eq, List.flatten_cons,
        List.getLast?_append]
      cases taken.flatten.getLast? <;> rfl

/-- **The failure of the lexer shows once.** Either no request comes upon it and it stands where it
stood, or one does, and the stream is at its end. -/
theorem failure_shows (hs : s.WellFormed)
    (hlex : ∀ e, s.failure = some e → e.fault.isSyntactic = false) (qs : List (Request α)) :
    ((s.after qs).failure = s.failure ∧ (s.turns qs).countP Turn.isBroken = 0) ∨
      ∃ e, s.failure = some e ∧ (s.after qs).AtEnd ∧ (s.turns qs).countP Turn.isBroken = 1 ∧
        ∀ x ∈ s.turns qs, x.isBroken = true → x.result = .error e := by
  induction qs generalizing s with
  | nil => exact .inl ⟨rfl, rfl⟩
  | cons q qs ih =>
    obtain ⟨⟨ts, hpasses⟩, -⟩ := q.proceeds hs
    have hs' := hpasses.wellFormed hs
    have hafter : s.after (q :: qs) = (q.run.run s).2.after qs := rfl
    rw [hafter, turns]
    rcases hpasses.failure_cases with ⟨hsame, hsyntactic⟩ | ⟨e, hfailure, hresult, hend⟩
    · -- the failure, if any, is still to come
      have hfirst : ¬ Turn.isBroken ⟨q, s, (q.run.run s).1, (q.run.run s).2⟩ = true := by
        rw [Turn.isBroken_iff]
        rintro ⟨e, he, hfault⟩
        rw [hsyntactic e he] at hfault
        cases hfault
      rw [List.countP_cons_of_neg hfirst]
      rw [← hsame] at hlex ⊢
      refine (ih hs' hlex).imp id fun ⟨e, hfailure, hend, hcount, hall⟩ => ?_
      exact ⟨e, hfailure, hend, hcount, List.forall_mem_cons.2 ⟨fun h => absurd h hfirst, hall⟩⟩
    · -- it has shown, and there is no other
      have hfirst : Turn.isBroken ⟨q, s, (q.run.run s).1, (q.run.run s).2⟩ = true :=
        (Turn.isBroken_iff _).2 ⟨e, hresult, hlex e hfailure⟩
      have hnone := hend.2
      obtain ⟨hfailure', hcount⟩ :=
        (ih hs' (by simp [hnone])).resolve_right fun ⟨e', he', _⟩ => by simp [hnone] at he'
      obtain ⟨taken, -, hpending, -⟩ := exists_taken hs' qs
      have hnil := (List.append_eq_nil_iff.1 (hpending.symm.trans hend.1)).2
      refine .inr ⟨e, hfailure, ⟨hnil, hfailure'.trans hnone⟩, ?_, ?_⟩
      · rw [List.countP_cons_of_pos hfirst, hcount]
      · refine List.forall_mem_cons.2 ⟨fun _ => hresult, fun x hx hbroken => ?_⟩
        exact absurd hbroken (List.countP_eq_zero.1 hcount x hx)

/-- **A stream never loses, repeats or moves a token.** Whatever a stream is asked for, and whether
it answers or fails, each request takes certain tokens one by one (`Turn.Takes`), a look none. Those
taken so far, the one that has been looked at, and those still to come are the tokens of the source
other than comments, in order, up to the failure of the lexer. A token that is refused stays the
next one, and the last place is that of the last token taken, or the start. The failure of the lexer
shows at most once, for the first request that asks for more tokens than there are, and after that
the stream is at its end. -/
theorem session_keeps_tokens (source : Source) (requests : List (Request α)) :
    let start := ofLexed source.lex
    let turns := start.turns requests
    let s := start.after requests
    ∃ taken : List (List Token),
      List.Forall₂ Turn.Takes turns taken ∧
      taken.flatten ++ (s.buffer.toList ++ s.unread) =
        (source.lex.tokens.filter fun t => !t.isComment) ∧
      s.last = ((taken.flatten.getLast?).map Token.position).getD .start ∧
      turns.countP Turn.isBroken ≤ 1 ∧
      ∀ x ∈ turns, x.isBroken = true →
        (∃ e, source.lex.failure = some e ∧ x.result = .error e) ∧ peek.run s = (.ok none, s) := by
  intro start turns s
  have hstart : start.WellFormed := wellFormed_ofLexed source.lex
  obtain ⟨taken, htaken, hpending, hlast⟩ := exists_taken hstart requests
  refine ⟨taken, htaken, ?_, hlast, ?_⟩
  · rw [buffer_append_unread]
    exact hpending.symm
  · have hlex (e : ReadError) (he : start.failure = some e) : e.fault.isSyntactic = false :=
      Source.lex_failure he
    rcases failure_shows hstart hlex requests with ⟨-, hcount⟩ | ⟨e, hfailure, hend, hcount, hall⟩
    · refine ⟨Nat.le_trans (Nat.le_of_eq hcount) (Nat.zero_le 1), fun x hx hbroken => ?_⟩
      exact absurd hbroken (List.countP_eq_zero.1 hcount x hx)
    · refine ⟨Nat.le_of_eq hcount, fun x hx hbroken => ?_⟩
      exact ⟨⟨e, hfailure, hall x hx hbroken⟩, peek_end hend⟩

end Stream

end MiniLisp
