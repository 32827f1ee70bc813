import MiniLisp.Proofs.Document.Acceptance

/-!
# Where reading stops

A sequence of lexemes is **viable** if it begins a document within the limit. Reading takes tokens
in for as long as they are viable and stops at the first one that makes them hopeless, without a
look at what comes after it.

* `Reading.State.exists_complete`: from every state some tokens lead to a complete document, so what
  has been taken in is viable (`viable_of_takes`).
* `not_viable_of_fail`: what a step refuses was hopeless.
* `Stream.feed_fail`, `Stream.feed_end`: what comes of reading in the two cases.

So **a sequence of tokens is taken in whole if and only if it is viable** (`takes_iff_viable`), and a
failure of the lexer shows only then.
-/

namespace MiniLisp

variable {α : Type}

/-- The lexemes begin a document that nests at most `d` deep. -/
def Grammar.Viable (d : Nat) (xs : List Lexeme) : Prop :=
  ∃ (ys : List Lexeme) (v : Datum), Grammar.Body d (xs ++ ys) v

theorem Grammar.Viable.of_append {d : Nat} {xs ys : List Lexeme} (h : Viable d (xs ++ ys)) :
    Viable d xs := by
  obtain ⟨zs, v, hbody⟩ := h
  rw [List.append_assoc] at hbody
  exact ⟨ys ++ zs, v, hbody⟩

/-- A token of the lexeme; where it stands is of no matter. -/
def Lexeme.token (x : Lexeme) : Token := ⟨x.kind, x.text, .start⟩

theorem Lexeme.map_lexeme_token (xs : List Lexeme) :
    (xs.map Lexeme.token).map Token.lexeme = xs := by
  rw [List.map_map]
  exact List.map_id xs

/-- A bare word, which can stand for any item. -/
def Lexeme.word : Lexeme := ⟨.bare, "x"⟩

/-! ## Every state can be completed -/

namespace Reading.State

variable (place : Place)

/-- The innermost body lacks a colon and a value, or a value, or nothing. -/
theorem exists_complete_body (reading : Reading α) (outer : List (Position × Body α)) :
    ∃ ts body v, Takes place ⟨reading, outer⟩ ts ⟨.item body, outer⟩ ∧ body.finish? = some v ∧
      ∀ t ∈ ts, t.kind ≠ .comment := by
  have hvalue (done : List (Tree α × Tree α)) (k : Tree α) : Takes place
      ⟨.item (.value done k), outer⟩ [Lexeme.word.token]
      ⟨.item (.ofEntries (done ++ [(k, .atom ⟨"x", .bare⟩)])), outer⟩ := by
    rw [← Body.put_value done k _ .start]
    exact .single (step_atom rfl)
  have hfinish (done : List (Tree α × Tree α)) (e : Tree α × Tree α) :
      ∃ v, (Body.ofEntries (done ++ [e])).finish? = some v := by
    cases done <;> exact ⟨_, rfl⟩
  cases reading with
  | colon first rest key p =>
    obtain ⟨v, hv⟩ := hfinish (first :: rest) (key, .atom ⟨"x", .bare⟩)
    have hcolon : step place ⟨(Body.ofEntries (first :: rest)).put key p, outer⟩
        Lexeme.colon.token = .next ⟨.item (.value (first :: rest) key), outer⟩ := step_colon rfl
    exact ⟨[Lexeme.colon.token, Lexeme.word.token], _, v, .cons hcolon (hvalue _ key), hv,
      by decide⟩
  | item body =>
    cases body with
    | value done key =>
      obtain ⟨v, hv⟩ := hfinish done (key, .atom ⟨"x", .bare⟩)
      exact ⟨[Lexeme.word.token], _, v, hvalue done key, hv, by decide⟩
    | empty => exact ⟨[], _, _, .nil, rfl, by simp⟩
    | single item => exact ⟨[], _, _, .nil, rfl, by simp⟩
    | items items => exact ⟨[], _, _, .nil, rfl, by simp⟩
    | entries first rest => exact ⟨[], _, _, .nil, rfl, by simp⟩

/-- **From every state some tokens lead to a complete document**: those that the innermost body
lacks, a closing parenthesis, and the same again for the bodies around it. -/
theorem exists_complete (s : State α) :
    ∃ ts body v, Takes place s ts ⟨.item body, []⟩ ∧ body.finish? = some v ∧
      ∀ t ∈ ts, t.kind ≠ .comment := by
  obtain ⟨reading, outer⟩ := s
  induction outer generalizing reading with
  | nil => exact exists_complete_body place reading []
  | cons interrupted outer ih =>
    obtain ⟨p, body'⟩ := interrupted
    obtain ⟨ts, body, v, htakes, hv, hts⟩ := exists_complete_body place reading ((p, body') :: outer)
    have hclose : step place ⟨.item body, (p, body') :: outer⟩ Lexeme.rparen.token =
        .next ⟨body'.put v p, outer⟩ := step_rparen rfl hv
    obtain ⟨ts', body'', w, htakes', hw, hts'⟩ := ih (body'.put v p)
    refine ⟨ts ++ Lexeme.rparen.token :: ts', body'', w, htakes.append (.cons hclose htakes'), hw,
      ?_⟩
    intro t ht
    rcases List.mem_append.1 ht with ht | ht
    · exact hts t ht
    · rcases List.mem_cons.1 ht with rfl | ht
      · decide
      · exact hts' t ht

/-- Tokens that are taken in under one limit are so under every other that allows the same
depths. -/
theorem Takes.of_limit {limit limit' : Int} {s s' : State α} {ts : List Token}
    (h : Takes ⟨0, limit, none⟩ s ts s') (hts : ∀ t ∈ ts, t.kind ≠ .comment)
    (hle : ∀ n : Nat, n + 1 ≤ limit → n + 1 ≤ limit') : Takes ⟨0, limit', none⟩ s ts s' := by
  induction h with
  | nil => exact .nil
  | @cons s s' s'' t ts hs _ ih =>
    have hs' : s.step ⟨0, limit', none⟩ t = .next s' := by
      refine step_of_limit (hts t List.mem_cons_self) hs ?_
      simpa only [depth, Int.zero_add] using hle s.outer.length
    exact .cons hs' (ih fun t' ht' => hts t' (List.mem_cons_of_mem _ ht'))

/-- Where tokens lead is settled by the tokens. -/
theorem Takes.unique {place : Place} {s s' s'' : State α} {ts : List Token}
    (h : Takes place s ts s') (h' : Takes place s ts s'') : s' = s'' := by
  induction h with
  | nil =>
    cases h'
    rfl
  | cons hs _ ih =>
    cases h' with
    | cons hs' hrest =>
      rw [hs] at hs'
      cases hs'
      exact ih hrest

/-- Tokens in two parts are taken in one part after the other. -/
theorem Takes.split {place : Place} {s s'' : State α} {ts ts' : List Token}
    (h : Takes place s (ts ++ ts') s'') : ∃ s', Takes place s ts s' ∧ Takes place s' ts' s'' := by
  induction ts generalizing s with
  | nil => exact ⟨s, .nil, h⟩
  | cons t ts ih =>
    cases h with
    | cons hs hrest =>
      obtain ⟨s', hfront, hback⟩ := ih hrest
      exact ⟨s', .cons hs hfront, hback⟩

/-- Tokens are taken in one after the other up to the first one that is refused. -/
theorem takes_or_fails (s : State α) (limit : Int) (ts : List Token) :
    (∃ s', Takes ⟨0, limit, none⟩ s ts s') ∨
      ∃ front t rest s' e, ts = front ++ t :: rest ∧ Takes ⟨0, limit, none⟩ s front s' ∧
        s'.step ⟨0, limit, none⟩ t = .fail e := by
  induction ts generalizing s with
  | nil => exact .inl ⟨s, .nil⟩
  | cons t ts ih =>
    cases hs : s.step ⟨0, limit, none⟩ t with
    | done v => exact absurd hs step_ne_done
    | fail e => exact .inr ⟨[], t, ts, s, e, rfl, .nil, hs⟩
    | next s' =>
      rcases ih s' with ⟨s'', htakes⟩ | ⟨front, t', rest, s'', e, rfl, htakes, hfail⟩
      · exact .inl ⟨s'', .cons hs htakes⟩
      · exact .inr ⟨t :: front, t', rest, s'', e, rfl, .cons hs htakes, hfail⟩

end Reading.State

open Reading.State (Takes)

/-- Tokens that are taken in extend the trace of the state by their lexemes. -/
theorem Traced.takes {d : Nat} {xs : List Lexeme} {s s' : Reading.State α} {ts : List Token}
    (h : Traced d xs s) (hts : ∀ t ∈ ts, t.kind ≠ .comment)
    (htakes : Takes ⟨0, d, none⟩ s ts s') : Traced d (xs ++ ts.map Token.lexeme) s' := by
  induction htakes generalizing xs with
  | nil =>
    rw [List.map_nil, List.append_nil]
    exact h
  | @cons s s' s'' t ts hs _ ih =>
    have hnext := h.step (hts t List.mem_cons_self) hs
    have hrest := ih hnext fun t' ht' => hts t' (List.mem_cons_of_mem _ ht')
    rwa [List.append_assoc] at hrest

namespace Stream

variable {place : Place} {s s' : Reading.State α} {front ts : List Token} {t : Token}
  {e : ReadError}

/-- Reading stops at a token that is refused, and leaves it as the next one. -/
theorem feed_fail (htakes : Takes place s front s') (hs : s'.step place t = .fail e)
    (rest : List Token) (failure : Option ReadError) (last : Position) (events : List Event) :
    (feed place failure s last events (front ++ t :: rest)).1 = .error e ∧
      (feed place failure s last events (front ++ t :: rest)).2.pending = t :: rest := by
  obtain ⟨last', events', hfeed⟩ := feed_takes failure htakes (t :: rest) last events
  rw [hfeed, feed]
  simp only [hs]
  exact ⟨trivial, trivial⟩

/-- If every token is taken in, reading ends with the failure of the lexer, if there is one. -/
theorem feed_end (htakes : Takes place s ts s') (failure : Option ReadError) (last : Position)
    (events : List Event) :
    (∃ last', (feed place failure s last events ts).1 =
        match failure with
        | some e => .error e
        | none => s'.finish place last') ∧
      (feed place failure s last events ts).2.pending = [] := by
  obtain ⟨last', events', hfeed⟩ := feed_takes failure htakes [] last events
  rw [List.append_nil] at hfeed
  rw [hfeed]
  cases failure with
  | some e => exact ⟨⟨last', rfl⟩, rfl⟩
  | none => exact ⟨⟨last', rfl⟩, rfl⟩

end Stream

/-! ## What is taken in is what is viable -/

section Viable

variable {d : Nat} {s : Reading.State Empty} {ts front : List Token} {t : Token} {e : ReadError}

/-- **What has been taken in begins a document.** -/
theorem viable_of_takes (hts : ∀ t ∈ ts, t.kind ≠ .comment)
    (htakes : Takes ⟨0, d, none⟩ .start ts s) : Grammar.Viable d (ts.map Token.lexeme) := by
  obtain ⟨more, body, v, hmore, hv, hcomment⟩ := s.exists_complete ⟨0, d, none⟩
  have htraced : Traced d (ts.map Token.lexeme) s := Traced.start.takes hts htakes
  obtain ⟨last, hfeed⟩ := (Stream.feed_end hmore none .start []).1
  have hok : (Stream.feed ⟨0, d, none⟩ none s .start [] more).1 = .ok v := by
    simp [hfeed, Reading.State.finish, Reading.State.opener?, hv]
  exact ⟨more.map Token.lexeme, v, (Stream.feed_sound htraced hcomment hok).2⟩

/-- **What is refused was hopeless**: no document begins with it. -/
theorem not_viable_of_fail (htakes : Takes ⟨0, d, none⟩ .start front s)
    (hs : s.step ⟨0, d, none⟩ t = .fail e) :
    ¬ Grammar.Viable d ((front ++ [t]).map Token.lexeme) := by
  rintro ⟨ys, v, hbody⟩
  -- the document would be read, and it is refused at `t`
  have hlexemes : (front ++ t :: ys.map Lexeme.token).map Token.lexeme =
      (front ++ [t]).map Token.lexeme ++ ys := by
    simp only [List.map_append, List.map_cons, List.map_nil, Lexeme.map_lexeme_token,
      List.append_assoc, List.cons_append, List.nil_append]
  rw [← hlexemes] at hbody
  have hread := Stream.feed_complete hbody .start []
  have hrefused := (Stream.feed_fail htakes hs (ys.map Lexeme.token) none .start []).1
  exact nomatch hread.symm.trans hrefused

/-- **Tokens are taken in whole if and only if they begin a document.** -/
theorem takes_iff_viable (hts : ∀ t ∈ ts, t.kind ≠ .comment) :
    (∃ s : Reading.State Empty, Takes ⟨0, d, none⟩ .start ts s) ↔
      Grammar.Viable d (ts.map Token.lexeme) := by
  constructor
  · rintro ⟨s, htakes⟩
    exact viable_of_takes hts htakes
  · intro hviable
    rcases Reading.State.takes_or_fails (α := Empty) .start d ts with htakes |
      ⟨front, t, rest, s, e, rfl, htakes, hs⟩
    · exact htakes
    · have hsplit : (front ++ t :: rest).map Token.lexeme =
          (front ++ [t]).map Token.lexeme ++ rest.map Token.lexeme := by
        simp
      rw [hsplit] at hviable
      exact absurd hviable.of_append (not_viable_of_fail htakes hs)

end Viable

/-! ## Documents -/

/-- What is wrong with a piece of text is no matter of the sequence of tokens. -/
theorem scan_error {c : CodePoint} {rest : Text} {e : ScanError} (h : scan c rest = .error e) :
    e.fault.isSyntactic = false := by
  unfold scan at h
  split at h
  · cases h
  split at h
  · split at h
    · split at h <;> cases h
      rfl
    · cases h
  split at h
  · cases h
  split at h
  · cases h
  split at h
  · cases h
  split at h
  · split at h <;> cases h <;> rfl
  split at h <;> cases h
  rfl

theorem lexFrom_failure {p : Position} {s : Text} {e : ReadError}
    (h : (lexFrom p s).failure = some e) : e.fault.isSyntactic = false := by
  fun_induction lexFrom p s with
  | case1 => cases h
  | case2 p c rest e' hscan =>
    cases h
    exact scan_error hscan
  | case3 p c rest more next hscan ih => exact ih h
  | case4 p c rest more next kind text hscan ih => exact ih h

namespace Source

/-- The tokens of a document that count, in order and with their places: all but the comments. -/
def tokens (source : Source) : List Token := (Stream.ofLexed source.lex).pending

theorem tokens_ne_comment (source : Source) : ∀ t ∈ source.tokens, t.kind ≠ .comment := by
  intro t ht
  have := (List.mem_filter.1 ht).2
  simpa [Token.isComment] using this

theorem lex_failure {source : Source} {e : ReadError} (h : source.lex.failure = some e) :
    e.fault.isSyntactic = false := by
  cases source with
  | text t => exact lexFrom_failure h
  | bytes b =>
    simp only [Source.lex] at h
    split at h
    · exact lexFrom_failure h
    · cases h
      rfl

/-- A token that is refused decides what becomes of every document with the same tokens up to it. -/
theorem parse_of_fail {source : Source} {d : Nat} {front : List Token} {t : Token} {e : ReadError}
    {s : Reading.State Empty} (htakes : Takes ⟨0, d, none⟩ .start front s)
    (hs : s.step ⟨0, d, none⟩ t = .fail e) (h : front ++ [t] <+: source.tokens) :
    (source.parse d).result = .error e := by
  obtain ⟨rest, hrest⟩ := h
  rw [List.append_assoc] at hrest
  have hfail := (Stream.feed_fail htakes hs rest source.lex.failure .start []).1
  rw [List.singleton_append] at hrest
  rw [hrest] at hfail
  exact hfail

/-- **Errors show at the first hopeless token, and later text cannot change them.** If reading fails
while tokens are left, the next one is the first that no document of nesting at most `d` has after
those before it, and every source with the same tokens up to that one fails in the same way. If the
lexer fails, its failure is reported exactly where all tokens before it begin such a document. -/
theorem parse_error_first_hopeless (source : Source) (d : Nat) :
    (∀ (e : ReadError) (stream : Stream) (t : Token) (rest : List Token),
      (Stream.document d : Reader Datum).run (.ofLexed source.lex) = (.error e, stream) →
      stream.pending = t :: rest →
      ∃ front, source.tokens = front ++ t :: rest ∧
        Grammar.Viable d (front.map Token.lexeme) ∧
        ¬ Grammar.Viable d ((front ++ [t]).map Token.lexeme) ∧
        ∀ other : Source, front ++ [t] <+: other.tokens →
          (other.parse d).result = .error e) ∧
    (∀ e : ReadError, source.lex.failure = some e →
      ((source.parse d).result = .error e ↔ Grammar.Viable d source.lex.significant)) := by
  have hcomment := source.tokens_ne_comment
  constructor
  · intro e stream t rest hrun hpending
    have hfeed : Stream.feed ⟨0, d, none⟩ source.lex.failure .start .start [] source.tokens =
        ((.error e : Except ReadError Datum), stream) := hrun
    rcases Reading.State.takes_or_fails (α := Empty) .start d source.tokens with ⟨s, htakes⟩ |
      ⟨front, t', rest', s, e', htokens, htakes, hs⟩
    · -- had all tokens been taken in, none would be left
      have hempty := (Stream.feed_end htakes source.lex.failure .start []).2
      rw [hfeed, hpending] at hempty
      cases hempty
    · obtain ⟨hresult, hleft⟩ :=
        Stream.feed_fail htakes hs rest' source.lex.failure .start []
      rw [← htokens, hfeed] at hresult hleft
      obtain rfl : e = e' := Except.error.inj hresult
      obtain ⟨rfl, rfl⟩ : t = t' ∧ rest = rest' := List.cons.inj (hpending.symm.trans hleft)
      rw [htokens] at hcomment
      exact ⟨front, htokens,
        viable_of_takes (fun t ht => hcomment t (List.mem_append_left _ ht)) htakes,
        not_viable_of_fail htakes hs, fun other h => parse_of_fail htakes hs h⟩
  · intro e hfailure
    have hviable := takes_iff_viable (d := d) hcomment
    rw [show source.lex.significant = source.tokens.map Token.lexeme from rfl, ← hviable]
    constructor
    · intro hresult
      rcases Reading.State.takes_or_fails (α := Empty) .start d source.tokens with htakes |
        ⟨front, t, rest, s, e', htokens, htakes, hs⟩
      · exact htakes
      · -- a token that is refused has an error of its own, which is no failure of the lexer
        have hfail : (source.parse d).result = .error e' :=
          parse_of_fail htakes hs ⟨rest, by rw [htokens]; simp⟩
        obtain rfl : e = e' := Except.error.inj (hresult.symm.trans hfail)
        exact absurd (Reading.State.step_fail hs) (by simp [lex_failure hfailure])
    · rintro ⟨s, htakes⟩
      obtain ⟨last, hend⟩ := (Stream.feed_end htakes source.lex.failure .start []).1
      rw [hfailure] at hend
      have hparse : (source.parse d).result =
          (Stream.feed ⟨0, d, none⟩ source.lex.failure .start .start [] source.tokens).1 := rfl
      rw [hparse, hfailure, hend]

/-- The second key of a map has no colon after it. That shows at the next word, whether a further
entry follows it or a string without an end, and the string shows only where there is still hope. -/
theorem parse_error_first_hopeless_missing_colon :
    ((Source.text "a: b c d: e").parse 0).result = .error ⟨.itemInMap, ⟨5, 1, 6⟩⟩ ∧
      Grammar.Viable 0 [⟨.bare, "a"⟩, .colon, ⟨.bare, "b"⟩, ⟨.bare, "c"⟩] ∧
      ¬ Grammar.Viable 0 [⟨.bare, "a"⟩, .colon, ⟨.bare, "b"⟩, ⟨.bare, "c"⟩, ⟨.bare, "d"⟩] ∧
      ((Source.text "a: b c d\"").parse 0).result = .error ⟨.itemInMap, ⟨5, 1, 6⟩⟩ ∧
      ((Source.text "a: b c\"").parse 0).result = .error ⟨.unterminatedString, ⟨6, 1, 7⟩⟩ := by
  have hrun : (Stream.document 0 : Reader Datum).run (.ofLexed (Source.text "a: b c d: e").lex) =
      (.error ⟨.itemInMap, ⟨5, 1, 6⟩⟩,
        ⟨[⟨.bare, "d", ⟨7, 1, 8⟩⟩, ⟨.colon, ":", ⟨8, 1, 9⟩⟩, ⟨.bare, "e", ⟨10, 1, 11⟩⟩], true, none,
          ⟨5, 1, 6⟩, [.committed 0 .map]⟩) := by cbv
  have hread : ((Source.text "a: b c d: e").parse 0).result =
      .error ⟨.itemInMap, ⟨5, 1, 6⟩⟩ := congrArg Prod.fst hrun
  obtain ⟨front, htokens, hviable, hhopeless, hother⟩ :=
    (parse_error_first_hopeless (.text "a: b c d: e") 0).1 _ _ _ _ hrun rfl
  have hfront : front = [⟨.bare, "a", ⟨0, 1, 1⟩⟩, ⟨.colon, ":", ⟨1, 1, 2⟩⟩,
      ⟨.bare, "b", ⟨3, 1, 4⟩⟩, ⟨.bare, "c", ⟨5, 1, 6⟩⟩] := by
    refine List.append_cancel_right (htokens.symm.trans ?_)
    cbv
  subst hfront
  refine ⟨hread, hviable, hhopeless, hother _ ?_, ?_⟩
  · refine ⟨[], ?_⟩
    cbv
  · have hfailure : (Source.text "a: b c\"").lex.failure =
        some ⟨.unterminatedString, ⟨6, 1, 7⟩⟩ := by cbv
    refine ((parse_error_first_hopeless (.text "a: b c\"") 0).2 _ hfailure).2 ?_
    have hsig : (Source.text "a: b c\"").lex.significant =
        [⟨.bare, "a"⟩, .colon, ⟨.bare, "b"⟩, ⟨.bare, "c"⟩] := by cbv
    rw [hsig]
    exact hviable

end Source

end MiniLisp
