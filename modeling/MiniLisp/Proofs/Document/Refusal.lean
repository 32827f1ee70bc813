import MiniLisp.Proofs.Document.Viability

/-!
# What is wrong with a document, and where

Reading stops at the first token that no document could have there, or finds at the end that
something is missing. What it reports depends on the body that the tokens leave open, which is
described here by the tokens alone.

* `Token.openParens`: the parentheses that are still open.
* `BodySoFar ts body`: the tokens of the innermost open body. `KeyAt ts p` says that this body is a
  map and ends with a key that lacks its colon, `ListSoFar ts` that it has two items or more and no
  colon.
* `Refused limit front t e`: the error for a token that makes a beginning hopeless.
* `CutShort ts e`: the error for tokens that could go on.

A state of reading shows the same (`Takes.keyAt_iff`, `Takes.listSoFar_iff`,
`Takes.endsWithColon_iff`), and so **these two are the errors that reading ends in**
(`Stream.document_error_iff`).
-/

namespace MiniLisp

/-! ## The innermost open body -/

/-- The parentheses that are open after one more token, the innermost first. -/
def Token.opening (stack : List Token) (t : Token) : List Token :=
  match t.kind with
  | .lparen => t :: stack
  | .rparen => stack.tail
  | _ => stack

/-- The parentheses that the tokens open and do not close, the innermost first. -/
def Token.openParens (ts : List Token) : List Token := ts.foldl Token.opening []

/-- The tokens end with `body`, which starts with the document or after an opening parenthesis. -/
inductive BodySoFar : List Token → List Token → Prop
  | document (body : List Token) : BodySoFar body body
  | parens (front : List Token) {l : Token} (body : List Token) (hl : l.kind = .lparen) :
      BodySoFar (front ++ l :: body) body

theorem BodySoFar.suffix {ts body : List Token} (h : BodySoFar ts body) : body <:+ ts := by
  cases h with
  | document => exact List.suffix_refl _
  | @parens front l body hl => exact ⟨front ++ [l], by simp⟩

/-- The tokens end with a key, which starts at `p` and lacks its colon, in a body that has a
complete entry and so is a map. -/
inductive KeyAt : List Token → Position → Prop
  | intro {n : Nat} {ts entries key : List Token} {t : Token} {e : Datum × Datum}
      {es : List (Datum × Datum)} {k : Datum} (hbody : BodySoFar ts (entries ++ t :: key))
      (hentries : Grammar.Entries n (entries.map Token.lexeme) (e :: es))
      (hkey : Grammar.Item n ((t :: key).map Token.lexeme) k) : KeyAt ts t.position

/-- The tokens end with two or more items of a body without a colon. -/
inductive ListSoFar : List Token → Prop
  | intro {n : Nat} {ts body : List Token} {a b : Datum} {items : List Datum}
      (hbody : BodySoFar ts body)
      (hitems : Grammar.Items n (body.map Token.lexeme) (a :: b :: items)) : ListSoFar ts

/-- The last token is a colon. -/
def EndsWithColon (ts : List Token) : Prop := ts.getLast?.map Token.kind = some .colon

/-- A token that starts an item: an atom, or an opening parenthesis. -/
def Token.StartsItem (t : Token) : Prop := t.kind = .lparen ∨ ∃ form, t.kind.form? = some form

namespace Token.StartsItem

variable {t : Token}

theorem ne_colon (h : t.StartsItem) : t.kind ≠ .colon := by
  rintro hk
  rcases h with h | ⟨form, h⟩ <;> rw [hk] at h <;> cases h

theorem ne_rparen (h : t.StartsItem) : t.kind ≠ .rparen := by
  rintro hk
  rcases h with h | ⟨form, h⟩ <;> rw [hk] at h <;> cases h

/-- What is neither a comment nor one of the other two marks starts an item. -/
theorem of_ne (hcomment : t.kind ≠ .comment) (hcolon : t.kind ≠ .colon)
    (hrparen : t.kind ≠ .rparen) : t.StartsItem := by
  cases hk : t.kind with
  | lparen => exact .inl hk
  | rparen => exact absurd hk hrparen
  | colon => exact absurd hk hcolon
  | comment => exact absurd hk hcomment
  | _ => exact .inr ⟨_, by rw [hk]; rfl⟩

end Token.StartsItem

/-! ## Errors -/

/-- The error for the token `t`, if no document within the limit begins with it after `front`. -/
inductive Refused (limit : Int) (front : List Token) (t : Token) : ReadError → Prop
  /-- A map is closed after a key: the error is at the key. -/
  | keyClosed {p : Position} (hkey : KeyAt front p) (ht : t.kind = .rparen) :
      Refused limit front t ⟨.missingColon, p⟩
  /-- An item follows a key: the error is at the key. -/
  | keyFollowed {p : Position} (hkey : KeyAt front p) (ht : t.StartsItem) :
      Refused limit front t ⟨.itemInMap, p⟩
  /-- A parenthesis opens where an item may stand. -/
  | tooDeep (hkey : ∀ p, ¬ KeyAt front p) (ht : t.kind = .lparen) :
      Refused limit front t ⟨.tooDeep limit, t.position⟩
  | colonInList (hlist : ListSoFar front) (ht : t.kind = .colon) :
      Refused limit front t ⟨.colonInList, t.position⟩
  /-- After a colon there is neither another one nor the end of the body. -/
  | missingValue (hcolon : EndsWithColon front) (ht : t.kind = .colon ∨ t.kind = .rparen) :
      Refused limit front t ⟨.missingValue t.text, t.position⟩
  /-- Any other colon or closing parenthesis. -/
  | unexpected (hkey : ∀ p, ¬ KeyAt front p) (hcolon : ¬ EndsWithColon front)
      (ht : t.kind = .colon ∧ ¬ ListSoFar front ∨ t.kind = .rparen) :
      Refused limit front t ⟨.unexpectedToken t.text, t.position⟩

/-- The error for tokens that begin a document and are none yet. -/
inductive CutShort (ts : List Token) : ReadError → Prop
  | missingColon {p : Position} (hkey : KeyAt ts p) : CutShort ts ⟨.missingColon, p⟩
  | unclosed {l : Token} {outer : List Token} (hkey : ∀ p, ¬ KeyAt ts p)
      (hopen : Token.openParens ts = l :: outer) : CutShort ts ⟨.unclosedParen, l.position⟩
  | missingValue {front : List Token} {c : Token} (hopen : Token.openParens ts = [])
      (hts : ts = front ++ [c]) (hc : c.kind = .colon) : CutShort ts ⟨.unexpectedEnd, c.position⟩

/-! ## What a state shows -/

namespace Reading.State

variable {α : Type} {place : Place} {s s' : State α} {t : Token} {ts body : List Token}

/-- A parenthesis that opens or closes does so on both stacks. -/
theorem step_opening (ht : t.kind ≠ .comment) (h : s.step place t = .next s') {stack : List Token}
    (hstack : stack.map Token.position = s.outer.map Prod.fst) :
    (Token.opening stack t).map Token.position = s'.outer.map Prod.fst := by
  rcases step_next ht h with ⟨body, form, -, hf, rfl⟩ | ⟨body, -, hk, -, rfl⟩ |
    ⟨body, v, p, body', outer, -, hk, -, houter, rfl⟩ | ⟨done, k, p, -, hk, rfl⟩
  · cases hk : t.kind <;> rw [hk] at hf <;> cases hf <;> simpa [Token.opening, hk] using hstack
  · simpa [Token.opening, hk] using hstack
  · rw [houter] at hstack
    have htail := congrArg List.tail hstack
    simpa [Token.opening, hk] using htail
  · simpa [Token.opening, hk] using hstack

/-- **The bodies around the innermost one are where the parentheses are still open.** -/
theorem Takes.openParens (h : Takes place .start ts s) (hts : ∀ t ∈ ts, t.kind ≠ .comment) :
    (Token.openParens ts).map Token.position = s.outer.map Prod.fst := by
  suffices hrun : ∀ (s s' : State α) (ts : List Token), Takes place s ts s' →
      (∀ t ∈ ts, t.kind ≠ .comment) → ∀ stack : List Token,
      stack.map Token.position = s.outer.map Prod.fst →
      (ts.foldl Token.opening stack).map Token.position = s'.outer.map Prod.fst from
    hrun _ _ _ h hts [] rfl
  intro s s' ts h
  induction h with
  | nil => exact fun _ stack hstack => hstack
  | @cons s s' s'' t ts hs _ ih =>
    intro hts stack hstack
    have hnext := step_opening (hts t List.mem_cons_self) hs hstack
    exact ih (fun t' ht' => hts t' (List.mem_cons_of_mem _ ht')) _ hnext

/-- The innermost body has been taken in from its start. -/
theorem Takes.bodySoFar (h : Takes place .start ts s) (hts : ∀ t ∈ ts, t.kind ≠ .comment)
    (hbody : BodySoFar ts body) :
    ∃ outer, Takes place ⟨.item .empty, outer⟩ body s := by
  cases hbody with
  | document => exact ⟨[], h⟩
  | @parens front l body hl =>
    obtain ⟨s₁, -, hback⟩ := h.split
    cases hback with
    | @cons _ s₂ _ _ _ hopen hrest =>
      have hcomment : l.kind ≠ .comment := hts l (by simp)
      -- the only way to take in an opening parenthesis is to start a body
      rcases step_next hcomment hopen with ⟨_, form, -, hf, -⟩ | ⟨b, -, -, -, rfl⟩ |
        ⟨_, _, _, _, _, -, hk, -⟩ | ⟨_, _, _, -, hk, -⟩
      · rw [hl] at hf
        cases hf
      · exact ⟨_, hrest⟩
      · rw [hl] at hk
        cases hk
      · rw [hl] at hk
        cases hk

end Reading.State

/-- A state has been read from the tokens of its innermost body. -/
theorem Traced.bodySoFar {d : Nat} {ts : List Token} {s : Reading.State Empty}
    (h : Traced d (ts.map Token.lexeme) s) :
    ∃ body, BodySoFar ts body ∧
      s.reading.ReadFrom (d - s.outer.length) (body.map Token.lexeme) := by
  generalize hxs : ts.map Token.lexeme = xs at h
  cases h with
  | @intro xs ys reading outer hout hin =>
  cases hout with
  | nil =>
    rw [List.nil_append] at hxs
    exact ⟨ts, .document ts, hxs ▸ hin⟩
  | @cons zs zs' l p b outer hout hb hl hlt =>
    obtain ⟨front, body, rfl, hfront, rfl⟩ := List.map_eq_append_iff.1 hxs
    obtain ⟨front, last, rfl, -, hlast⟩ := List.map_eq_append_iff.1 hfront
    obtain ⟨t, rfl, rfl⟩ := List.map_eq_singleton_iff.1 hlast
    refine ⟨body, ?_, hin⟩
    rw [List.append_assoc]
    exact .parens front body hl

section Inversion

variable {n : Nat} {xs : List Lexeme}

/-- A list that shows its items has been read from at least two. -/
theorem Reading.ReadFrom.of_items {items : List Datum}
    (h : (Reading.item (.items items)).ReadFrom n xs) :
    ∃ a b rest, Grammar.Items n xs (a :: b :: rest : List Datum) := by
  cases h with
  | item h =>
  generalize hbody : Body.items items = body at h
  cases h with
  | @items _ items hitems =>
    match items, hitems with
    | [], _ => cases hbody
    | [_], _ => cases hbody
    | a :: b :: rest, hitems => exact ⟨a, b, rest, hitems⟩
  | entries => cases hbody
  | value => cases hbody

/-- A body that waits for a value has been read up to a colon. -/
theorem Reading.ReadFrom.of_value {done : List (Datum × Datum)} {k : Datum}
    (h : (Reading.item (.value done k)).ReadFrom n xs) :
    ∃ ys c, xs = ys ++ [c] ∧ c.kind = .colon := by
  cases h with
  | item h =>
  generalize hbody : Body.value done k = body at h
  cases h with
  | @items _ items hitems =>
    match items with
    | [] => cases hbody
    | [_] => cases hbody
    | _ :: _ :: _ => cases hbody
  | entries => cases hbody
  | value _ _ hc => exact ⟨_, _, rfl, hc⟩

end Inversion

/-! ## The state and the tokens -/

namespace Reading.State

variable {limit : Int} {s : State Empty} {ts : List Token}
  (h : Takes ⟨0, limit, none⟩ .start ts s) (hts : ∀ t ∈ ts, t.kind ≠ .comment)
include h hts

/-- Wherever the tokens of the innermost body lead from its start, that is how far it has got. -/
theorem Takes.reading_eq {body : List Token} (hbody : BodySoFar ts body) (n : Nat)
    {reading : Reading Empty}
    (htakes : ∀ (limit' : Int) (outer : List (Position × Body Empty)),
      0 + (outer.length : Int) + n ≤ limit' →
      Takes ⟨0, limit', none⟩ ⟨.item .empty, outer⟩ body ⟨reading, outer⟩) :
    s.reading = reading := by
  obtain ⟨outer, hfrom⟩ := h.bodySoFar hts hbody
  have hcomment : ∀ t ∈ body, t.kind ≠ .comment := fun t ht => hts t (hbody.suffix.subset ht)
  -- a limit that leaves room for the body
  have hraised : Takes ⟨0, max limit (outer.length + n), none⟩ ⟨.item .empty, outer⟩ body s :=
    hfrom.of_limit hcomment (by omega)
  rw [hraised.unique (htakes _ outer (by omega))]

theorem Takes.reading_of_keyAt {p : Position} (hkey : KeyAt ts p) :
    ∃ e es k, s.reading = .colon e es k p := by
  cases hkey with
  | @intro n _ entries key t e es k hbody hentries hitem =>
  refine ⟨e, es, k, h.reading_eq hts hbody n ?_⟩
  intro limit' outer hd
  have hmap : Takes ⟨0, limit', none⟩ ⟨.item .empty, outer⟩ entries
      ⟨.item (.entries e es), outer⟩ :=
    entries_takes hentries rfl [] outer hd
  obtain ⟨p, hp, hput⟩ : ∃ p, some t.position = some p ∧
      Takes ⟨0, limit', none⟩ ⟨.item (.entries e es), outer⟩ (t :: key) ⟨.colon e es k p, outer⟩ :=
    item_takes hitem rfl (.entries e es) outer hd
  cases hp
  exact hmap.append hput

theorem Takes.reading_of_listSoFar (hlist : ListSoFar ts) :
    ∃ items, s.reading = .item (.items items) := by
  cases hlist with
  | @intro n _ body a b items hbody hitems =>
  refine ⟨a :: b :: items, h.reading_eq hts hbody n ?_⟩
  intro limit' outer hd
  exact items_takes hitems rfl [] outer hd

/-- The state has been read from the tokens of the innermost body. -/
theorem Takes.exists_bodySoFar :
    ∃ n body, BodySoFar ts body ∧ s.reading.ReadFrom n (body.map Token.lexeme) := by
  have htakes : Takes ⟨0, (limit.toNat : Int), none⟩ .start ts s := h.of_limit hts (by omega)
  have htraced : Traced limit.toNat (ts.map Token.lexeme) s := Traced.start.takes hts htakes
  obtain ⟨body, hbody, hfrom⟩ := htraced.bodySoFar
  exact ⟨_, body, hbody, hfrom⟩

/-- **A key lacks its colon** in the tokens if and only if the state waits for that colon. -/
theorem Takes.keyAt_iff (p : Position) : KeyAt ts p ↔ ∃ e es k, s.reading = .colon e es k p := by
  refine ⟨h.reading_of_keyAt hts, ?_⟩
  rintro ⟨e, es, k, hreading⟩
  obtain ⟨n, body, hbody, hfrom⟩ := h.exists_bodySoFar hts
  rw [hreading] at hfrom
  generalize hxs : body.map Token.lexeme = xs at hfrom
  cases hfrom with
  | colon hentries hitem =>
  obtain ⟨entries, key, rfl, rfl, rfl⟩ := List.map_eq_append_iff.1 hxs
  cases key with
  | nil => cases hitem
  | cons t key =>
    have hkey : KeyAt ts t.position := .intro hbody hentries hitem
    obtain ⟨e', es', k', hreading'⟩ := h.reading_of_keyAt hts hkey
    rw [hreading] at hreading'
    cases hreading'
    exact hkey

/-- Where no key lacks its colon, the innermost body waits for an item. -/
theorem Takes.reading_item (hkey : ∀ p, ¬ KeyAt ts p) : ∃ body, s.reading = .item body := by
  cases hreading : s.reading with
  | item body => exact ⟨body, rfl⟩
  | colon e es k p => exact absurd ((h.keyAt_iff hts p).2 ⟨e, es, k, hreading⟩) (hkey p)

/-- The tokens show a list of two items or more if and only if the state does. -/
theorem Takes.listSoFar_iff : ListSoFar ts ↔ ∃ items, s.reading = .item (.items items) := by
  refine ⟨h.reading_of_listSoFar hts, ?_⟩
  rintro ⟨items, hreading⟩
  obtain ⟨n, body, hbody, hfrom⟩ := h.exists_bodySoFar hts
  rw [hreading] at hfrom
  obtain ⟨a, b, rest, hitems⟩ := hfrom.of_items
  exact .intro hbody hitems

/-- The state waits for a value if and only if the last token is a colon. -/
theorem Takes.endsWithColon_iff :
    EndsWithColon ts ↔ ∃ done k, s.reading = .item (.value done k) := by
  constructor
  · intro hlast
    obtain ⟨c, hc, hkind⟩ := Option.map_eq_some_iff.1 hlast
    obtain ⟨front, rfl⟩ := List.getLast?_eq_some_iff.1 hc
    obtain ⟨s₁, -, hback⟩ := h.split
    cases hback with
    | cons hs hrest =>
    cases hrest
    rcases step_next (hts c (by simp)) hs with ⟨_, form, -, hform, -⟩ | ⟨_, -, hk, -⟩ |
      ⟨_, _, _, _, _, -, hk, -⟩ | ⟨done, k, -, -, -, rfl⟩
    · rw [hkind] at hform
      cases hform
    · rw [hkind] at hk
      cases hk
    · rw [hkind] at hk
      cases hk
    · exact ⟨done, k, rfl⟩
  · rintro ⟨done, k, hreading⟩
    obtain ⟨n, body, hbody, hfrom⟩ := h.exists_bodySoFar hts
    rw [hreading] at hfrom
    obtain ⟨ys, c, hys, hc⟩ := hfrom.of_value
    obtain ⟨front, last, rfl, -, hlast⟩ := List.map_eq_append_iff.1 hys
    obtain ⟨c, rfl, rfl⟩ := List.map_eq_singleton_iff.1 hlast
    obtain ⟨before, rfl⟩ := hbody.suffix
    rw [EndsWithColon, ← List.append_assoc, List.getLast?_append]
    exact congrArg some hc

/-! ## A token that is refused -/

variable {t : Token} (hnext : ∀ s', s.step ⟨0, limit, none⟩ t ≠ .next s')
include hnext

theorem Takes.step_of_refused {e : ReadError} (hrefused : Refused limit ts t e) :
    s.step ⟨0, limit, none⟩ t = .fail e := by
  obtain ⟨reading, outer⟩ := s
  cases hrefused with
  | keyClosed hkey ht =>
    obtain ⟨_, _, _, rfl⟩ := (h.keyAt_iff hts _).1 hkey
    simp [step, ht]
  | keyFollowed hkey ht =>
    obtain ⟨_, _, _, rfl⟩ := (h.keyAt_iff hts _).1 hkey
    exact step_item_in_map ht.ne_colon ht.ne_rparen
  | tooDeep hkey ht =>
    obtain ⟨body, rfl⟩ := h.reading_item hts hkey
    by_cases hd : 0 + (outer.length : Int) + 1 ≤ limit
    · exact absurd (step_lparen ht hd) (hnext _)
    · have hd' : limit < 0 + (outer.length : Int) + 1 := by omega
      simp only [step, ht, depth, gt_iff_lt, if_pos hd']
  | colonInList hlist ht =>
    obtain ⟨_, rfl⟩ := (h.listSoFar_iff hts).1 hlist
    simp [step, ht]
  | missingValue hcolon ht =>
    obtain ⟨_, _, rfl⟩ := (h.endsWithColon_iff hts).1 hcolon
    rcases ht with ht | ht <;> simp [step, ht, Body.finish?]
  | unexpected hkey hcolon ht =>
    obtain ⟨body, rfl⟩ := h.reading_item hts hkey
    rcases ht with ⟨ht, hlist⟩ | ht
    · -- a colon is taken after a first item, so there is none yet or the entries are complete
      cases body with
      | empty => simp [step, ht]
      | single k =>
        have htaken : step ⟨0, limit, none⟩ ⟨.item (.single k), outer⟩ t =
            .next ⟨.item (.value [] k), outer⟩ := by simp [step, ht]
        exact absurd htaken (hnext _)
      | items items => exact absurd ((h.listSoFar_iff hts).2 ⟨items, rfl⟩) hlist
      | entries => simp [step, ht]
      | value done k =>
        exact absurd ((h.endsWithColon_iff hts).2 ⟨done, k, rfl⟩) hcolon
    · -- a closing parenthesis is taken wherever one is open
      obtain ⟨v, hv⟩ : ∃ v, body.finish? = some v := by
        cases body with
        | value done k =>
          exact absurd ((h.endsWithColon_iff hts).2 ⟨done, k, rfl⟩) hcolon
        | _ => exact ⟨_, rfl⟩
      cases outer with
      | nil => simp [step, ht, hv, close]
      | cons interrupted outer => exact absurd (step_rparen ht hv) (hnext _)

/-- There is an error for every token that is refused. -/
theorem Takes.exists_refused (ht : t.kind ≠ .comment) : ∃ e, Refused limit ts t e := by
  obtain ⟨reading, outer⟩ := s
  by_cases hkey : ∃ p, KeyAt ts p
  · obtain ⟨p, hkey⟩ := hkey
    obtain ⟨e, es, k, rfl⟩ := (h.keyAt_iff hts p).1 hkey
    by_cases hcolon : t.kind = .colon
    · have htaken : step ⟨0, limit, none⟩ ⟨.colon e es k p, outer⟩ t =
          .next ⟨.item (.value (e :: es) k), outer⟩ := by simp [step, hcolon]
      exact absurd htaken (hnext _)
    · by_cases hrparen : t.kind = .rparen
      · exact ⟨_, .keyClosed hkey hrparen⟩
      · exact ⟨_, .keyFollowed hkey (.of_ne ht hcolon hrparen)⟩
  · have hkey : ∀ p, ¬ KeyAt ts p := not_exists.1 hkey
    cases hk : t.kind with
    | comment => exact absurd hk ht
    | lparen => exact ⟨_, .tooDeep hkey hk⟩
    | colon =>
      by_cases hcolon : EndsWithColon ts
      · exact ⟨_, .missingValue hcolon (.inl hk)⟩
      by_cases hlist : ListSoFar ts
      · exact ⟨_, .colonInList hlist hk⟩
      exact ⟨_, .unexpected hkey hcolon (.inl ⟨hk, hlist⟩)⟩
    | rparen =>
      by_cases hcolon : EndsWithColon ts
      · exact ⟨_, .missingValue hcolon (.inr hk)⟩
      exact ⟨_, .unexpected hkey hcolon (.inr hk)⟩
    | _ =>
      -- an atom is taken wherever no key waits for its colon
      obtain ⟨body, rfl⟩ := h.reading_item hts hkey
      exact absurd (step_atom (by rw [hk]; rfl)) (hnext _)

/-- **The error of a token that is refused** is the one for it after the tokens before it. -/
theorem Takes.refused_iff (ht : t.kind ≠ .comment) (e : ReadError) :
    Refused limit ts t e ↔ s.step ⟨0, limit, none⟩ t = .fail e := by
  refine ⟨h.step_of_refused hts hnext, ?_⟩
  intro hfail
  obtain ⟨e', hrefused⟩ := h.exists_refused hts hnext ht
  have hfail' := h.step_of_refused hts hnext hrefused
  rw [hfail] at hfail'
  cases hfail'
  exact hrefused

omit hnext

/-! ## The end of the input -/

/-- **The error at the end of the input** is the one for tokens that could go on. -/
theorem Takes.cutShort_iff {last : Position}
    (hlast : ∀ front c, ts = front ++ [c] → last = c.position) (e : ReadError) :
    CutShort ts e ↔ s.finish ⟨0, limit, none⟩ last = .error e := by
  have hopen := h.openParens hts
  obtain ⟨reading, outer⟩ := s
  constructor
  · intro hcut
    cases hcut with
    | missingColon hkey =>
      obtain ⟨_, _, _, rfl⟩ := (h.keyAt_iff hts _).1 hkey
      rfl
    | @unclosed l parens hkey hparens =>
      obtain ⟨body, rfl⟩ := h.reading_item hts hkey
      rw [hparens] at hopen
      obtain ⟨⟨p, interrupted⟩, outer, rfl, rfl, -⟩ := List.map_eq_cons_iff.1 hopen.symm
      rfl
    | @missingValue front c hparens hfront hc =>
      have hends : EndsWithColon ts := by simp [EndsWithColon, hfront, hc]
      obtain ⟨done, k, rfl⟩ := (h.endsWithColon_iff hts).1 hends
      rw [hparens] at hopen
      obtain rfl := List.map_eq_nil_iff.1 hopen.symm
      rw [← hlast front c hfront]
      rfl
  · intro hfinish
    cases reading with
    | colon e es k p =>
      cases hfinish
      exact .missingColon ((h.keyAt_iff hts p).2 ⟨e, es, k, rfl⟩)
    | item body =>
      cases outer with
      | cons interrupted outer =>
        cases hfinish
        obtain ⟨l, parens, hparens, hl, -⟩ := List.map_eq_cons_iff.1 hopen
        rw [← hl]
        refine .unclosed (fun p hkey => ?_) hparens
        obtain ⟨_, _, _, hreading⟩ := (h.keyAt_iff hts p).1 hkey
        cases hreading
      | nil =>
        -- a document that is not complete here lacks a value
        cases body with
        | value done k =>
          have hends := (h.endsWithColon_iff hts).2 ⟨done, k, rfl⟩
          obtain ⟨c, hc, hkind⟩ := Option.map_eq_some_iff.1 hends
          obtain ⟨front, hfront⟩ := List.getLast?_eq_some_iff.1 hc
          cases hfinish
          rw [hlast front c hfront]
          exact .missingValue (List.map_eq_nil_iff.1 hopen) hfront hkind
        | _ => cases hfinish

end Reading.State

/-! ## Documents -/

section Viable

open Reading.State

variable {limit : Int} {s : Reading.State Empty} {ts : List Token} {t : Token}

/-- Tokens are taken in whole if and only if they begin a document, also under a negative limit,
which allows no parentheses. -/
theorem takes_iff_viable_toNat (hts : ∀ t ∈ ts, t.kind ≠ .comment) :
    (∃ s : Reading.State Empty, Takes ⟨0, limit, none⟩ .start ts s) ↔
      Grammar.Viable limit.toNat (ts.map Token.lexeme) := by
  rw [← takes_iff_viable hts]
  constructor
  · rintro ⟨s, htakes⟩
    exact ⟨s, htakes.of_limit hts (by omega)⟩
  · rintro ⟨s, htakes⟩
    exact ⟨s, htakes.of_limit hts (by omega)⟩

/-- A token is taken in if and only if a document begins with it after those before it. -/
theorem step_next_iff_viable (h : Takes ⟨0, limit, none⟩ .start ts s)
    (hts : ∀ t' ∈ ts ++ [t], t'.kind ≠ .comment) :
    (∃ s', s.step ⟨0, limit, none⟩ t = .next s') ↔
      Grammar.Viable limit.toNat ((ts ++ [t]).map Token.lexeme) := by
  rw [← takes_iff_viable_toNat hts]
  constructor
  · rintro ⟨s', hs⟩
    exact ⟨s', h.append (.single hs)⟩
  · rintro ⟨s', htakes⟩
    obtain ⟨s₁, hfront, hlast⟩ := htakes.split
    obtain rfl := h.unique hfront
    cases hlast with
    | cons hs _ => exact ⟨_, hs⟩

end Viable

namespace Stream

open Reading.State (Takes)

/-- Once every token is taken in, reading ends at the last of them. -/
theorem feed_end_last {α : Type} {place : Place} {s s' : Reading.State α} {ts : List Token}
    (htakes : Takes place s ts s') (last : Position) (events : List Event) :
    (feed place none s last events ts).1 =
      s'.finish place ((ts.getLast?.map Token.position).getD last) := by
  induction htakes generalizing last events with
  | nil => rfl
  | @cons s s' s'' t ts hs htakes ih =>
    simp only [feed, hs, ih, List.getLast?_cons]
    cases ts.getLast? <;> rfl

variable {limit : Int} {s : Reading.State Empty} {ts front : List Token} {t : Token}

/-- A document with a hopeless token ends in the error for that token. -/
theorem feed_refused (htakes : Takes ⟨0, limit, none⟩ .start front s)
    (hts : ∀ t' ∈ front ++ [t], t'.kind ≠ .comment)
    (hhopeless : ¬ Grammar.Viable limit.toNat ((front ++ [t]).map Token.lexeme))
    (rest : List Token) (e : ReadError) :
    Refused limit front t e ↔ (feed ⟨0, limit, none⟩ none (.start : Reading.State Empty) .start []
      (front ++ t :: rest)).1 = .error e := by
  obtain ⟨hfront, hlast⟩ := List.forall_mem_append.1 hts
  rw [← step_next_iff_viable htakes hts] at hhopeless
  rw [htakes.refused_iff hfront (not_exists.1 hhopeless) (hlast t List.mem_cons_self)]
  cases hs : s.step ⟨0, limit, none⟩ t with
  | next s' => exact absurd ⟨s', hs⟩ hhopeless
  | done v => exact absurd hs Reading.State.step_ne_done
  | fail e' =>
    rw [(feed_fail htakes hs rest none .start []).1, Reading.Step.fail.injEq, Except.error.injEq]

/-- A document without a hopeless token ends in the error for what is missing at its end. -/
theorem feed_cutShort (htakes : Takes ⟨0, limit, none⟩ .start ts s)
    (hts : ∀ t ∈ ts, t.kind ≠ .comment) (e : ReadError) :
    CutShort ts e ↔ (feed ⟨0, limit, none⟩ none (.start : Reading.State Empty) .start []
      ts).1 = .error e := by
  rw [feed_end_last htakes]
  exact htakes.cutShort_iff hts (fun front c hlast => by simp [hlast]) e

/-- **What is wrong with a document, and where.** Reading ends in the error `e` if and only if that
is the error for the first token that no document within the limit has after those before it; or, if
there is no such token, for what is missing at the end. Comments are of no matter. -/
theorem document_error_iff (tokens : List Token) (limit : Int) (e : ReadError) :
    let ts := tokens.filter fun t => !t.isComment
    ((document limit : Reader Datum).run (ofLexed ⟨tokens, none⟩)).1 = .error e ↔
      (∃ front t rest, ts = front ++ t :: rest ∧
        Grammar.Viable limit.toNat (front.map Token.lexeme) ∧
        ¬ Grammar.Viable limit.toNat ((front ++ [t]).map Token.lexeme) ∧
        Refused limit front t e) ∨
      Grammar.Viable limit.toNat (ts.map Token.lexeme) ∧ CutShort ts e := by
  intro ts
  have hcomment : ∀ t ∈ ts, t.kind ≠ .comment := by
    intro t ht
    simpa [Token.isComment] using (List.mem_filter.1 ht).2
  have hsplit {front rest : List Token} {t : Token} (hts : ts = front ++ t :: rest) :
      ∀ t' ∈ front ++ [t], t'.kind ≠ .comment := by
    rw [hts, List.append_cons] at hcomment
    exact (List.forall_mem_append.1 hcomment).1
  have hrun : ((document limit : Reader Datum).run (ofLexed ⟨tokens, none⟩)).1 =
      (feed ⟨0, limit, none⟩ none .start .start [] ts).1 := rfl
  rw [hrun]
  constructor
  · intro hresult
    rcases Reading.State.takes_or_fails (.start : Reading.State Empty) limit ts with ⟨s, htakes⟩ |
      ⟨front, t, rest, s, e', hts, htakes, hfail⟩
    · right
      exact ⟨(takes_iff_viable_toNat hcomment).1 ⟨s, htakes⟩,
        (feed_cutShort htakes hcomment e).2 hresult⟩
    · have hhopeless : ¬ Grammar.Viable limit.toNat ((front ++ [t]).map Token.lexeme) := by
        rw [← step_next_iff_viable htakes (hsplit hts), hfail]
        simp
      rw [hts] at hresult
      left
      exact ⟨front, t, rest, hts,
        (takes_iff_viable_toNat (List.forall_mem_append.1 (hsplit hts)).1).1 ⟨s, htakes⟩,
        hhopeless, (feed_refused htakes (hsplit hts) hhopeless rest e).2 hresult⟩
  · rintro (⟨front, t, rest, hts, hviable, hhopeless, hrefused⟩ | ⟨hviable, hcut⟩)
    · obtain ⟨s, htakes⟩ :=
        (takes_iff_viable_toNat (List.forall_mem_append.1 (hsplit hts)).1).2 hviable
      rw [hts]
      exact (feed_refused htakes (hsplit hts) hhopeless rest e).1 hrefused
    · obtain ⟨s, htakes⟩ := (takes_iff_viable_toNat hcomment).2 hviable
      exact (feed_cutShort htakes hcomment e).1 hcut

/-- A key without a colon goes before the parenthesis that is still open around it. -/
example : ((Source.text "x: (a: b (c d)").parse 2).result = .error ⟨.missingColon, ⟨9, 1, 10⟩⟩ := by
  cbv

end Stream

end MiniLisp
