import MiniLisp.Document.Stream
import MiniLisp.Proofs.Document.Grammar

/-!
# The reader accepts exactly the grammar

Reading goes token by token through states (`Reading.State.step`), the grammar derives whole items
and bodies. The two meet in what a state has been read from.

* `Takes place s ts s'`: the tokens lead from one state to another.
* `item_takes`: the lexemes of an item put that item into the body that waits for one.
* `Traced d xs s`: the lexemes `xs` are those that a reading under the limit `d` has behind it in
  state `s`, cut into derived parts. `Traced.step` is the step lemma, `feed_sound` the run lemma.
* `feed_limit`: a lower limit changes nothing but to refuse what nests too deep.

Together they give `document_ok_iff`: **a document reads as `v` if and only if the grammar derives
`v` from it**, and what the grammar does not derive is refused as a sequence of tokens
(`feed_error`).
-/

namespace MiniLisp

variable {α : Type}

namespace Body

/-- The body of a list that has these items so far. -/
def ofItems : List (Tree α) → Body α
  | [] => .empty
  | [a] => .single a
  | a :: b :: rest => .items (a :: b :: rest)

/-- The body of a map that has these entries so far. -/
def ofEntries : List (Tree α × Tree α) → Body α
  | [] => .empty
  | e :: es => .entries e es

theorem put_ofItems (items : List (Tree α)) (v : Tree α) (p : Position) :
    (ofItems items).put v p = .item (ofItems (items ++ [v])) := by
  match items with
  | [] => rfl
  | [_] => rfl
  | _ :: _ :: _ => rfl

theorem finish?_ofItems (items : List (Tree α)) :
    (ofItems items).finish? = some (.list items) := by
  match items with
  | [] => rfl
  | [_] => rfl
  | _ :: _ :: _ => rfl

theorem put_value (done : List (Tree α × Tree α)) (k v : Tree α) (p : Position) :
    (Body.value done k).put v p = .item (ofEntries (done ++ [(k, v)])) := by
  cases done <;> rfl

end Body

namespace Reading.State

variable {place : Place} {body : Body α} {outer : List (Position × Body α)} {t : Token}

theorem step_atom {form : Form} (h : t.kind.form? = some form) :
    step place ⟨.item body, outer⟩ t =
      .next ⟨body.put (.atom ⟨t.text, form⟩) t.position, outer⟩ := by
  cases hk : t.kind <;> simp [hk, TokenKind.form?] at h <;> simp [step, hk, h, TokenKind.form?]

theorem step_lparen (h : t.kind = .lparen)
    (hd : place.depth + outer.length + 1 ≤ place.limit) :
    step place ⟨.item body, outer⟩ t = .next ⟨.item .empty, (t.position, body) :: outer⟩ := by
  have : ¬ place.limit < place.depth + outer.length + 1 := by omega
  simp [step, h, depth, this]

theorem step_rparen {v : Tree α} {p : Position} {body' : Body α} (h : t.kind = .rparen)
    (hf : body.finish? = some v) :
    step place ⟨.item body, (p, body') :: outer⟩ t = .next ⟨body'.put v p, outer⟩ := by
  simp [step, h, hf, close]

/-- A colon is taken after a first key, or after a further key of a map. -/
theorem step_colon {done : List (Tree α × Tree α)} {k : Tree α} {p : Position}
    (h : t.kind = .colon) :
    step place ⟨(Body.ofEntries done).put k p, outer⟩ t =
      .next ⟨.item (.value done k), outer⟩ := by
  cases done <;> simp [Body.ofEntries, Body.put, step, h]

/-- **What it takes for a token to be taken in**: one of the four steps above. -/
theorem step_next {s s' : State α} (ht : t.kind ≠ .comment) (h : s.step place t = .next s') :
    (∃ body form, s.reading = .item body ∧ t.kind.form? = some form ∧
      s' = ⟨body.put (.atom ⟨t.text, form⟩) t.position, s.outer⟩) ∨
    (∃ body, s.reading = .item body ∧ t.kind = .lparen ∧ s.depth place + 1 ≤ place.limit ∧
      s' = ⟨.item .empty, (t.position, body) :: s.outer⟩) ∨
    (∃ body v p body' outer, s.reading = .item body ∧ t.kind = .rparen ∧
      body.finish? = some v ∧ s.outer = (p, body') :: outer ∧ s' = ⟨body'.put v p, outer⟩) ∨
    (∃ done k p, s.reading = (Body.ofEntries done).put k p ∧ t.kind = .colon ∧
      s' = ⟨.item (.value done k), s.outer⟩) := by
  obtain ⟨reading, outer⟩ := s
  unfold step at h
  split at h
  · rename_i first rest k p hr hk
    exact .inr (.inr (.inr ⟨first :: rest, k, p, hr, hk, (Step.next.inj h).symm⟩))
  · exact absurd h (by simp)
  · exact absurd h (by simp)
  · rename_i k hr hk
    exact .inr (.inr (.inr ⟨[], k, .start, hr, hk, (Step.next.inj h).symm⟩))
  · exact absurd h (by simp)
  · exact absurd h (by simp)
  · exact absurd h (by simp)
  · rename_i body hr hk
    split at h
    · rename_i v hv
      unfold close at h
      split at h
      · rename_i p body' outer' ho
        exact .inr (.inr (.inl ⟨body, v, p, body', outer', hr, hk, hv, ho, (Step.next.inj h).symm⟩))
      · split at h <;> exact absurd h (by simp)
    · exact absurd h (by simp)
  · rename_i body hr hk
    split at h
    · exact absurd h (by simp)
    · exact .inr (.inl ⟨body, hr, hk, by omega, (Step.next.inj h).symm⟩)
  · rename_i body hr _ _ _ hcolon hrparen hlparen
    split at h
    · rename_i form hf
      exact .inl ⟨body, form, hr, hf, (Step.next.inj h).symm⟩
    · rename_i hf
      -- what is neither an atom nor a mark is a comment
      cases hk : t.kind with
      | lparen => exact (hlparen hk).elim
      | rparen => exact (hrparen hk).elim
      | colon => exact (hcolon hk).elim
      | comment => exact absurd hk ht
      | _ => rw [hk] at hf; cases hf

/-- The limit only matters where a parenthesis opens. -/
theorem step_of_limit {depth limit limit' : Int} {opener : Option Position} {s s' : State α}
    (ht : t.kind ≠ .comment) (h : s.step ⟨depth, limit, opener⟩ t = .next s')
    (hle : s.depth ⟨depth, limit, opener⟩ + 1 ≤ limit →
      s.depth ⟨depth, limit', opener⟩ + 1 ≤ limit') :
    s.step ⟨depth, limit', opener⟩ t = .next s' := by
  obtain ⟨reading, outer⟩ := s
  rcases step_next ht h with ⟨body, form, rfl, hf, rfl⟩ | ⟨body, rfl, hk, hd, rfl⟩ |
    ⟨body, v, p, body', outer, rfl, hk, hf, rfl, rfl⟩ | ⟨done, k, p, rfl, hk, rfl⟩
  · exact step_atom hf
  · exact step_lparen hk (hle hd)
  · exact step_rparen hk hf
  · exact step_colon hk

/-- The tokens lead from one state to another, each of them taken in. -/
inductive Takes (place : Place) : State α → List Token → State α → Prop
  | nil {s : State α} : Takes place s [] s
  | cons {s s' s'' : State α} {t : Token} {ts : List Token} : s.step place t = .next s' →
      Takes place s' ts s'' → Takes place s (t :: ts) s''

theorem Takes.append {s s' s'' : State α} {ts ts' : List Token} (h : Takes place s ts s')
    (h' : Takes place s' ts' s'') : Takes place s (ts ++ ts') s'' := by
  induction h with
  | nil => exact h'
  | cons hs _ ih => exact .cons hs (ih h')

theorem Takes.single {s s' : State α} (h : s.step place t = .next s') :
    Takes place s [t] s' := .cons h .nil

end Reading.State

/-! ## What is derived is taken in -/

section Completeness

open Reading.State

variable {place : Place}

mutual

/-- **The lexemes of an item lead to the state with that item put**, from any body that waits for
one, as long as the limit leaves room for the parentheses of the item. The item starts where its
first token stands. -/
theorem item_takes {n : Nat} {xs : List Lexeme} {v : Tree α} (h : Grammar.Item n xs v)
    {ts : List Token} (hts : ts.map Token.lexeme = xs) (body : Body α)
    (outer : List (Position × Body α)) (hd : place.depth + outer.length + n ≤ place.limit) :
    ∃ p, ts.head?.map Token.position = some p ∧
      Takes place ⟨.item body, outer⟩ ts ⟨body.put v p, outer⟩ := by
  match h with
  | @Grammar.Item.atom _ _ x form hf =>
    obtain ⟨t, rfl, rfl⟩ := List.map_eq_singleton_iff.1 hts
    exact ⟨t.position, rfl, .single (step_atom hf)⟩
  | @Grammar.Item.parens _ d l r xs _ hl hr hb =>
    -- the tokens are cut where the derivation cuts their lexemes
    obtain ⟨tl, ts, rfl, rfl, hin⟩ := List.map_eq_cons_iff.1 hts
    obtain ⟨ts, tr, rfl, hxs, htr⟩ := List.map_eq_append_iff.1 hin
    obtain ⟨tr, rfl, rfl⟩ := List.map_eq_singleton_iff.1 htr
    have hopen : step place ⟨.item body, outer⟩ tl =
        .next ⟨.item .empty, (tl.position, body) :: outer⟩ := step_lparen hl (by omega)
    obtain ⟨body', hbody, hf⟩ := body_takes hb hxs ((tl.position, body) :: outer)
      (by simp only [List.length_cons]; omega)
    have hclose : step place ⟨.item body', (tl.position, body) :: outer⟩ tr =
        .next ⟨body.put v tl.position, outer⟩ := step_rparen hr hf
    exact ⟨tl.position, rfl, .cons hopen (hbody.append (.single hclose))⟩

/-- The lexemes of a body lead from its start to where it is complete. -/
theorem body_takes {n : Nat} {xs : List Lexeme} {v : Tree α} (h : Grammar.Body n xs v)
    {ts : List Token} (hts : ts.map Token.lexeme = xs) (outer : List (Position × Body α))
    (hd : place.depth + outer.length + n ≤ place.limit) :
    ∃ body, Takes place ⟨.item .empty, outer⟩ ts ⟨.item body, outer⟩ ∧ body.finish? = some v := by
  match h with
  | .list hs => exact ⟨_, items_takes hs hts [] outer hd, Body.finish?_ofItems _⟩
  | .map hes => exact ⟨_, entries_takes hes hts [] outer hd, rfl⟩

theorem items_takes {n : Nat} {xs : List Lexeme} {vs : List (Tree α)} (h : Grammar.Items n xs vs)
    {ts : List Token} (hts : ts.map Token.lexeme = xs) (items : List (Tree α))
    (outer : List (Position × Body α)) (hd : place.depth + outer.length + n ≤ place.limit) :
    Takes place ⟨.item (.ofItems items), outer⟩ ts ⟨.item (.ofItems (items ++ vs)), outer⟩ := by
  match h with
  | .nil =>
    obtain rfl := List.map_eq_nil_iff.1 hts
    rw [List.append_nil]
    exact .nil
  | @Grammar.Items.cons _ _ xs ys v vs hv hvs =>
    obtain ⟨ts, ts', rfl, hxs, hys⟩ := List.map_eq_append_iff.1 hts
    obtain ⟨p, -, hitem⟩ := item_takes hv hxs (.ofItems items) outer hd
    rw [Body.put_ofItems] at hitem
    have hrest := items_takes hvs hys (items ++ [v]) outer hd
    rw [List.append_assoc] at hrest
    exact hitem.append hrest

theorem entries_takes {n : Nat} {xs : List Lexeme} {es : List (Tree α × Tree α)}
    (h : Grammar.Entries n xs es) {ts : List Token} (hts : ts.map Token.lexeme = xs)
    (done : List (Tree α × Tree α)) (outer : List (Position × Body α))
    (hd : place.depth + outer.length + n ≤ place.limit) :
    Takes place ⟨.item (.ofEntries done), outer⟩ ts ⟨.item (.ofEntries (done ++ es)), outer⟩ := by
  match h with
  | .nil =>
    obtain rfl := List.map_eq_nil_iff.1 hts
    rw [List.append_nil]
    exact .nil
  | @Grammar.Entries.cons _ _ xs ys zs c k v es hk hc hv hes =>
    obtain ⟨ts, ts', rfl, hxs, hcolon⟩ := List.map_eq_append_iff.1 hts
    obtain ⟨tc, ts', rfl, rfl, hafter⟩ := List.map_eq_cons_iff.1 hcolon
    obtain ⟨ts', ts'', rfl, hys, hzs⟩ := List.map_eq_append_iff.1 hafter
    obtain ⟨p, -, hkey⟩ := item_takes hk hxs (.ofEntries done) outer hd
    obtain ⟨q, -, hvalue⟩ := item_takes hv hys (.value done k) outer hd
    rw [Body.put_value] at hvalue
    have hrest := entries_takes hes hzs (done ++ [(k, v)]) outer hd
    rw [List.append_assoc] at hrest
    exact hkey.append (.cons (step_colon hc) (hvalue.append hrest))

end

end Completeness

/-! ## What is taken in is derived -/

/-- The lexemes that a body has been read from, where each item may nest `n` deep. -/
inductive Body.ReadFrom (n : Nat) : List Lexeme → Body α → Prop
  | items {xs : List Lexeme} {items : List (Tree α)} : Grammar.Items n xs items →
      ReadFrom n xs (.ofItems items)
  | entries {xs : List Lexeme} {e : Tree α × Tree α} {es : List (Tree α × Tree α)} :
      Grammar.Entries n xs (e :: es) → ReadFrom n xs (.entries e es)
  | value {xs ys : List Lexeme} {c : Lexeme} {done : List (Tree α × Tree α)} {k : Tree α} :
      Grammar.Entries n xs done → Grammar.Item n ys k → c.kind = .colon →
      ReadFrom n (xs ++ ys ++ [c]) (.value done k)

inductive Reading.ReadFrom (n : Nat) : List Lexeme → Reading α → Prop
  | item {xs : List Lexeme} {body : Body α} : body.ReadFrom n xs → ReadFrom n xs (.item body)
  | colon {xs ys : List Lexeme} {e : Tree α × Tree α} {es : List (Tree α × Tree α)} {k : Tree α}
      {p : Position} : Grammar.Entries n xs (e :: es) → Grammar.Item n ys k →
      ReadFrom n (xs ++ ys) (.colon e es k p)

/-- The lexemes up to the innermost open parenthesis, which interrupts the first of the bodies. -/
inductive Interrupted (d : Nat) : List Lexeme → List (Position × Body α) → Prop
  | nil : Interrupted d [] []
  | cons {xs ys : List Lexeme} {l : Lexeme} {p : Position} {body : Body α}
      {outer : List (Position × Body α)} : Interrupted d xs outer →
      body.ReadFrom (d - outer.length) ys → l.kind = .lparen → outer.length < d →
      Interrupted d (xs ++ ys ++ [l]) ((p, body) :: outer)

/-- The lexemes that a document has been read from under the limit `d`. -/
inductive Traced (d : Nat) : List Lexeme → Reading.State α → Prop
  | intro {xs ys : List Lexeme} {reading : Reading α} {outer : List (Position × Body α)} :
      Interrupted d xs outer → reading.ReadFrom (d - outer.length) ys →
      Traced d (xs ++ ys) ⟨reading, outer⟩

section Soundness

variable {n d : Nat} {xs ys : List Lexeme} {body : Body α}

theorem Body.ReadFrom.empty : (.empty : Body α).ReadFrom n [] := .items .nil

theorem Traced.start : Traced d [] (.start : Reading.State α) := .intro .nil (.item .empty)

/-- A body with entries has been read from them. -/
theorem Body.ReadFrom.ofEntries {es : List (Tree α × Tree α)} (h : Grammar.Entries n xs es) :
    (Body.ofEntries es).ReadFrom n xs := by
  cases es with
  | nil => cases h; exact .empty
  | cons e es => exact .entries h

/-- **One more item** extends what the body has been read from by the lexemes of the item. -/
theorem Body.ReadFrom.put {v : Tree α} (h : body.ReadFrom n xs) (hv : Grammar.Item n ys v)
    (p : Position) : (body.put v p).ReadFrom n (xs ++ ys) := by
  cases h with
  | items hs =>
    rw [Body.put_ofItems]
    exact .item (.items (hs.append (.single hv)))
  | entries hes => exact .colon hes hv
  | @value xs zs c done k hes hk hc =>
    rw [Body.put_value]
    have hentry := hes.append (.single hk hc hv)
    simp only [List.append_assoc, List.cons_append, List.nil_append]
    exact .item (.ofEntries hentry)

/-- A complete body is derived as a whole. -/
theorem Body.ReadFrom.finish {v : Tree α} (h : body.ReadFrom n xs) (hf : body.finish? = some v) :
    Grammar.Body n xs v := by
  cases h with
  | items hs =>
    rw [Body.finish?_ofItems] at hf
    cases hf
    exact .list hs
  | entries hes =>
    cases hf
    exact .map hes
  | value => cases hf

/-- A body with one item has been read from just that item. -/
theorem Body.ReadFrom.of_single {k : Tree α} (h : (Body.single k).ReadFrom n xs) :
    Grammar.Item n xs k := by
  generalize hb : Body.single k = body at h
  cases h with
  | @items _ items hs =>
    match items with
    | [] => cases hb
    | [a] =>
      cases hb
      cases hs with
      | cons ha hnil =>
        cases hnil
        rwa [List.append_nil]
    | _ :: _ :: _ => cases hb
  | entries => cases hb
  | value => cases hb

/-- After a key and a colon, the body has been read from the entries, the key and the colon. -/
theorem Reading.ReadFrom.colon_next {done : List (Tree α × Tree α)} {k : Tree α} {p : Position}
    {c : Lexeme} (h : ((Body.ofEntries done).put k p).ReadFrom n xs) (hc : c.kind = .colon) :
    (Body.value done k).ReadFrom n (xs ++ [c]) := by
  cases done with
  | nil =>
    cases h with
    | item hb => exact .value .nil hb.of_single hc
  | cons e es =>
    cases h with
    | colon hes hk => exact .value hes hk hc

/-- **The step lemma**: a token that is taken in extends the trace of the state by its lexeme. -/
theorem Traced.step {s s' : Reading.State α} {t : Token} (h : Traced d xs s)
    (ht : t.kind ≠ .comment) (hs : s.step ⟨0, d, none⟩ t = .next s') :
    Traced d (xs ++ [t.lexeme]) s' := by
  cases h with
  | @intro xs ys reading outer hout hin =>
  rcases Reading.State.step_next ht hs with ⟨body, form, rfl, hf, rfl⟩ | ⟨body, rfl, hk, hd, rfl⟩ |
    ⟨body, v, p, body', outer, rfl, hk, hf, rfl, rfl⟩ | ⟨done, k, p, rfl, hk, rfl⟩
  · -- an atom
    cases hin with
    | item hb =>
      rw [List.append_assoc]
      exact .intro hout (hb.put (Grammar.Item.atom hf) t.position)
  · -- an opening parenthesis interrupts the body
    cases hin with
    | item hb =>
      have hlt : outer.length < d := by simp only [Reading.State.depth] at hd; omega
      have hempty := Traced.intro (Interrupted.cons (l := t.lexeme) (p := t.position) hout hb hk
        hlt) (.item .empty)
      rwa [List.append_nil] at hempty
  · -- a closing one makes the body an item of the one around it
    cases hin with
    | item hb =>
      cases hout with
      | @cons zs zs' l _ _ _ hout hb' hl hlt =>
        have hn : d - ((p, body') :: outer).length + 1 = d - outer.length := by
          simp only [List.length_cons]; omega
        have hitem := Grammar.Item.parens (r := t.lexeme) hl hk (hb.finish hf)
        rw [hn] at hitem
        simp only [List.append_assoc, List.cons_append, List.nil_append]
        exact .intro hout (hb'.put hitem p)
  · -- a colon
    rw [List.append_assoc]
    exact .intro hout (.item (hin.colon_next hk))

end Soundness

/-! ## Whole documents -/

/-- Whether a fault lies in the sequence of tokens, and not in the text that they are cut from. -/
def ReadFault.isSyntactic : ReadFault → Bool
  | .unexpectedEnd | .unexpectedToken _ | .missingValue _ | .unclosedParen | .missingColon
  | .colonInList | .itemInMap | .tooDeep _ => true
  | .invalidByte _ | .unexpectedCharacter _ | .escape _ | .unterminatedString
  | .unterminatedGuarded => false

namespace Reading.State

variable {place : Place} {s : State α} {t : Token}

theorem step_fail {e : ReadError} (h : s.step place t = .fail e) : e.fault.isSyntactic = true := by
  unfold step at h
  split at h
  · cases h
  · cases h; rfl
  · cases h; rfl
  · cases h
  · cases h; rfl
  · cases h; rfl
  · cases h; rfl
  · split at h
    · unfold close at h
      split at h
      · cases h
      · split at h <;> cases h
        rfl
    · cases h; rfl
  · split at h <;> cases h
    rfl
  · split at h <;> cases h

theorem finish_error {last : Position} {e : ReadError} (h : s.finish place last = .error e) :
    e.fault.isSyntactic = true := by
  unfold finish at h
  split at h
  · cases h; rfl
  · cases h; rfl
  · split at h <;> cases h
    rfl

/-- A document never ends before its last token. -/
theorem step_ne_done {depth limit : Int} {v : Tree α} :
    s.step ⟨depth, limit, none⟩ t ≠ .done v := by
  intro h
  unfold step at h
  split at h
  -- only a closing parenthesis could end it, and for that it has no opener
  case h_8 =>
    split at h
    · unfold close at h
      split at h
      · cases h
      · simp at h
    · cases h
  case h_9 => split at h <;> cases h
  case h_10 => split at h <;> cases h
  all_goals cases h

/-- A key of a map is followed by its colon, not by an item. -/
theorem step_item_in_map {e : Tree α × Tree α} {es : List (Tree α × Tree α)} {k : Tree α}
    {p : Position} {outer : List (Position × Body α)} (hcolon : t.kind ≠ .colon)
    (hrparen : t.kind ≠ .rparen) :
    step place ⟨.colon e es k p, outer⟩ t = .fail ⟨.itemInMap, p⟩ := by
  cases hk : t.kind with
  | colon => exact absurd hk hcolon
  | rparen => exact absurd hk hrparen
  | _ => simp [step, hk]

/-- The limit does not matter where no parenthesis opens. -/
theorem step_eq_of_ne_lparen (s : State α) (depth limit limit' : Int) (opener : Option Position)
    (h : t.kind ≠ .lparen) :
    s.step ⟨depth, limit, opener⟩ t = s.step ⟨depth, limit', opener⟩ t := by
  unfold step
  split
  case h_9 => contradiction
  all_goals rfl

/-- **A lower limit can only refuse.** Under the lower of two limits a step does the same, or fails
because the token would nest too deep. -/
theorem step_limit (s : State α) (t : Token) (depth : Int) (opener : Option Position)
    {limit limit' : Int} (h : limit ≤ limit') :
    s.step ⟨depth, limit, opener⟩ t = s.step ⟨depth, limit', opener⟩ t ∨
      s.step ⟨depth, limit, opener⟩ t = .fail ⟨.tooDeep limit, t.position⟩ := by
  by_cases hk : t.kind = .lparen
  · obtain ⟨reading, outer⟩ := s
    cases reading with
    | colon => left; simp [step, hk]
    | item body =>
      by_cases hd : limit < depth + outer.length + 1
      · right; simp [step, hk, State.depth, hd]
      · have hd' : ¬ limit' < depth + outer.length + 1 := by omega
        left; simp [step, hk, State.depth, hd, hd']
  · exact .inl (s.step_eq_of_ne_lparen depth limit limit' opener hk)

end Reading.State

namespace Stream

open Reading.State (Takes)

variable {place : Place} {failure : Option ReadError} {s : Reading.State α} {d : Nat}

/-- Tokens that are taken in are passed over. -/
theorem feed_takes (failure : Option ReadError) {s' : Reading.State α} {ts : List Token}
    (h : Takes place s ts s') (rest : List Token) (last : Position) (events : List Event) :
    ∃ last' events', feed place failure s last events (ts ++ rest) =
      feed place failure s' last' events' rest := by
  induction h generalizing last events with
  | nil => exact ⟨last, events, rfl⟩
  | @cons s s' s'' t ts hs _ ih =>
    obtain ⟨last', events', he⟩ := ih t.position (s.commitment place (some t) ++ events)
    exact ⟨last', events', by rw [List.cons_append, feed]; simp only [hs, he]⟩

/-- What the grammar derives is read. -/
theorem feed_complete {ts : List Token} {v : Tree α}
    (h : Grammar.Body d (ts.map Token.lexeme) v) (last : Position) (events : List Event) :
    (feed ⟨0, d, none⟩ none .start last events ts).1 = .ok v := by
  obtain ⟨body, htakes, hf⟩ : ∃ body : Body α,
      Takes ⟨0, d, none⟩ ⟨.item .empty, []⟩ ts ⟨.item body, []⟩ ∧ body.finish? = some v :=
    body_takes h rfl [] (by simp)
  obtain ⟨last', events', he⟩ := feed_takes none htakes [] last events
  rw [List.append_nil] at he
  rw [Reading.State.start, he]
  simp [feed, Reading.State.finish, Reading.State.opener?, hf]

/-- What is read is derived by the grammar, and the text has been cut up to its end. -/
theorem feed_sound {ts : List Token} {xs : List Lexeme} {v : Tree α} (h : Traced d xs s)
    (hts : ∀ t ∈ ts, t.kind ≠ .comment) {last : Position} {events : List Event}
    (hr : (feed ⟨0, d, none⟩ failure s last events ts).1 = .ok v) :
    failure = none ∧ Grammar.Body d (xs ++ ts.map Token.lexeme) v := by
  induction ts generalizing s xs last events with
  | nil =>
    cases failure with
    | some e => cases hr
    | none =>
      refine ⟨rfl, ?_⟩
      cases h with
      | @intro zs ys reading outer hout hin =>
      -- at the end no key waits for its colon and no parenthesis is open
      simp only [feed, Reading.State.finish] at hr
      cases hin with
      | colon => cases hr
      | item hb =>
        cases hout with
        | cons => cases hr
        | nil =>
          simp only [Reading.State.opener?] at hr
          split at hr
          · rename_i v' hf
            cases hr
            simpa using hb.finish hf
          · cases hr
  | cons t ts ih =>
    have ht := hts t List.mem_cons_self
    have hts' : ∀ t' ∈ ts, t'.kind ≠ .comment := fun t' h' => hts t' (List.mem_cons_of_mem _ h')
    rw [feed] at hr
    split at hr
    · rename_i s' hs
      obtain ⟨hfail, hbody⟩ := ih (h.step ht hs) hts' hr
      refine ⟨hfail, ?_⟩
      rwa [List.append_assoc] at hbody
    · rename_i hs
      exact absurd hs Reading.State.step_ne_done
    · cases hr

/-- Once the text has been cut up, reading can only fail for the sequence of tokens. -/
theorem feed_error {ts : List Token} {last : Position} {events : List Event} {e : ReadError}
    (h : (feed place none s last events ts).1 = .error e) : e.fault.isSyntactic = true := by
  induction ts generalizing s last events with
  | nil => exact Reading.State.finish_error h
  | cons t ts ih =>
    rw [feed] at h
    split at h
    · exact ih h
    · cases h
    · rename_i hs
      cases h
      exact Reading.State.step_fail hs

/-- **Limits compared over a whole run**: under the lower limit the outcome is the same, or the
document is refused because it nests too deep. -/
theorem feed_limit (failure : Option ReadError) (s : Reading.State α) (depth : Int)
    (opener : Option Position) {limit limit' : Int} (hle : limit ≤ limit') (ts : List Token)
    (last : Position) (events : List Event) :
    (feed ⟨depth, limit, opener⟩ failure s last events ts).1 =
        (feed ⟨depth, limit', opener⟩ failure s last events ts).1 ∨
      ∃ p, (feed ⟨depth, limit, opener⟩ failure s last events ts).1 =
        .error ⟨.tooDeep limit, p⟩ := by
  induction ts generalizing s last events with
  | nil => left; cases failure <;> rfl
  | cons t ts ih =>
    rcases s.step_limit t depth opener hle with hs | hs
    · cases hn : s.step ⟨depth, limit', opener⟩ t with
      | next s' =>
        rw [hn] at hs
        simp only [feed, hs, hn]
        exact ih s' t.position _
      | done v => rw [hn] at hs; left; simp only [feed, hs, hn]
      | fail e => rw [hn] at hs; left; simp only [feed, hs, hn]
    · right
      exact ⟨t.position, by simp only [feed, hs]⟩

/-- Only the depths that a limit allows matter for what is read: a document that is read under one
limit is read under every other that allows the same depths. -/
theorem feed_of_limit {limit limit' : Int} (hle : ∀ n : Nat, n + 1 ≤ limit → n + 1 ≤ limit')
    {ts : List Token} (hts : ∀ t ∈ ts, t.kind ≠ .comment) {last : Position} {events : List Event}
    {v : Tree α} (h : (feed ⟨0, limit, none⟩ failure s last events ts).1 = .ok v) :
    (feed ⟨0, limit', none⟩ failure s last events ts).1 = .ok v := by
  induction ts generalizing s last events with
  | nil => cases failure <;> exact h
  | cons t ts ih =>
    have hts' : ∀ t' ∈ ts, t'.kind ≠ .comment := fun t' h' => hts t' (List.mem_cons_of_mem _ h')
    rw [feed] at h ⊢
    split at h
    · rename_i s' hs
      have hs' : s.step ⟨0, limit', none⟩ t = .next s' := by
        refine Reading.State.step_of_limit (hts t List.mem_cons_self) hs ?_
        simpa only [Reading.State.depth, Int.zero_add] using hle s.outer.length
      simp only [hs']
      exact ih hts' h
    · rename_i hs
      exact absurd hs Reading.State.step_ne_done
    · cases h

/-- Reading a document succeeds exactly where its text could be cut up and the grammar derives the
result from what the text says. A negative limit allows no parentheses, as the limit zero does. -/
theorem document_ok_iff (l : Lexed) (limit : Int) (v : Tree α) :
    ((document limit : Reader (Tree α)).run (ofLexed l)).1 = .ok v ↔
      l.failure = none ∧ Grammar.Body limit.toNat l.significant v := by
  have hts : ∀ t ∈ l.tokens.filter fun t => !t.isComment, t.kind ≠ .comment := by
    intro t ht
    have := (List.mem_filter.1 ht).2
    simpa [Token.isComment] using this
  constructor
  · intro h
    exact feed_sound Traced.start hts (feed_of_limit (by omega) hts h)
  · rintro ⟨hfail, hbody⟩
    have := feed_complete hbody .start []
    rw [← hfail] at this
    exact feed_of_limit (by omega) hts this

/-- **The reader accepts exactly its grammar.** For any sequence of tokens, comments anywhere in it:
the result is `v` if and only if the grammar derives `v` from the other tokens with at most `d`
nested parentheses; there is at most one such `v`; and where there is none, the document is refused
for its sequence of tokens. -/
theorem document_reads_grammar (tokens : List Token) (d : Nat) :
    (∀ v : Datum, ((document d : Reader Datum).run (ofLexed ⟨tokens, none⟩)).1 = .ok v ↔
      Grammar.Body d (Lexed.significant ⟨tokens, none⟩) v) ∧
    (∀ v w : Datum, Grammar.Body d (Lexed.significant ⟨tokens, none⟩) v →
      Grammar.Body d (Lexed.significant ⟨tokens, none⟩) w → v = w) ∧
    ((¬ ∃ v : Datum, Grammar.Body d (Lexed.significant ⟨tokens, none⟩) v) →
      ∃ e, ((document d : Reader Datum).run (ofLexed ⟨tokens, none⟩)).1 = .error e ∧
        e.fault.isSyntactic = true) := by
  have hok (v : Datum) : ((document d : Reader Datum).run (ofLexed ⟨tokens, none⟩)).1 = .ok v ↔
      Grammar.Body d (Lexed.significant ⟨tokens, none⟩) v := by
    simp [document_ok_iff]
  refine ⟨hok, ?_, ?_⟩
  · intro v w hv hw
    have := ((hok v).2 hv).symm.trans ((hok w).2 hw)
    exact Except.ok.inj this
  · intro hnone
    cases hr : ((document d : Reader Datum).run (ofLexed ⟨tokens, none⟩)).1 with
    | ok v => exact absurd ⟨v, (hok v).1 hr⟩ hnone
    | error e => exact ⟨e, rfl, feed_error hr⟩

end Stream

namespace Source

theorem parse_ok_iff (source : Source) (limit : Int) (v : Datum) :
    (source.parse limit).result = .ok v ↔
      source.lex.failure = none ∧ Grammar.Body limit.toNat source.lex.significant v :=
  Stream.document_ok_iff source.lex limit v

/-- Under the lower of two limits a document comes to the same, or is refused as too deep. -/
theorem parse_limit (source : Source) {limit limit' : Int} (h : limit ≤ limit') :
    (source.parse limit).result = (source.parse limit').result ∨
      ∃ p, (source.parse limit).result = .error ⟨.tooDeep limit, p⟩ :=
  Stream.feed_limit source.lex.failure .start 0 none h
    (source.lex.tokens.filter fun t => !t.isComment) .start []

/-- A document that the grammar derives is refused under a limit below its nesting, and for no other
reason. -/
theorem parse_tooDeep {source : Source} {d n : Nat} {v : Datum} (hfail : source.lex.failure = none)
    (h : Grammar.Body n source.lex.significant v)
    (hd : d < Lexeme.nesting source.lex.significant) :
    ∃ p, (source.parse d).result = .error ⟨.tooDeep d, p⟩ := by
  have hle : (d : Int) ≤ n := by
    have := h.nesting_le
    omega
  have hok : (source.parse n).result = .ok v := (source.parse_ok_iff n v).2 ⟨hfail, h⟩
  -- under the lower limit the document is refused, or read as before: then it would not nest deeper
  rcases source.parse_limit hle with he | he
  · have hok' : (source.parse d).result = .ok v := he.trans hok
    have := ((source.parse_ok_iff d v).1 hok').2.nesting_le
    omega
  · exact he

end Source

end MiniLisp
