import MiniLisp.Proofs.Document.Spacing
import MiniLisp.Proofs.Document.Viability
import MiniLisp.Proofs.Text.Utf8

/-!
# Documents one after the other

Two documents on lines of their own make one text, and **the text says what the first document says
and then what the second says** (`Source.Joined.lex`): the line feed between them ends a bare word
or a comment at the end of the first. What the two read as together depends on what each of them
reads as alone. `Datum.followedBy` says how:

* items go on with items, and entries with entries (`Grammar.Body.followedBy`);
* a list does not go on as a map, nor a map as a list. The first colon of the second document is
  refused inside a list (`feed_map_after_list`); the first item of the second is taken for a key
  inside a map, and its colon is missed at the next item (`feed_items_after_map`) or at the end
  (`feed_item_after_map`).
-/

namespace MiniLisp

open CodePoint (ofChar)

/-! ## Texts -/

/-- A lexeme that ends with the text, or in front of what the text goes on with, also ends in front
of a line feed. -/
theorem Lexeme.Stops.line {x : Lexeme} {s : Text} (h : x.Stops s) (t : Text) :
    x.Stops (s ++ ofChar '\n' :: t) := by
  unfold Lexeme.Stops at h ⊢
  split at h
  · exact h.append (Text.detached_cons rfl)
  · intro c hc
    cases s with
    | nil => exact (Option.some.inj hc).symm
    | cons d s => exact h c hc
  · trivial

/-- **Two texts on lines of their own render the lexemes of both.** -/
theorem Renders.line {xs ys : List Lexeme} {s t : Text} (h : Renders xs s) (h' : Renders ys t) :
    Renders (xs ++ ys) (s ++ ofChar '\n' :: t) := by
  induction h with
  | nil => exact .blank rfl h'
  | blank hc _ ih => exact .blank hc ih
  | lexeme hx hstop _ ih =>
    rw [List.append_assoc]
    exact .lexeme hx (hstop.line t) ih

namespace Source

/-- The second document on the lines after the first, both of them texts or both of them bytes. -/
inductive Joined : Source → Source → Source → Prop
  | text (t u : Text) : Joined (.text t) (.text u) (.text (t ++ ofChar '\n' :: u))
  | bytes (b c : List UInt8) : Joined (.bytes b) (.bytes c) (.bytes (b ++ 0x0A :: c))

variable {first second joined : Source}

/-- Bytes without a failure can be decoded. -/
theorem decode_bytes {b : List UInt8} (h : (Source.bytes b).lex.failure = none) :
    Utf8.decode b = (content (.bytes b), none) := by
  simp only [Source.lex] at h
  split at h
  · rename_i t hd
    simp only [content, hd]
  · cases h

/-- **Joined documents say what the first says and then what the second says.** -/
theorem Joined.lex (h : Joined first second joined) (hfirst : first.lex.failure = none)
    (hsecond : second.lex.failure = none) :
    joined.lex.failure = none ∧
      joined.lex.significant = first.lex.significant ++ second.lex.significant := by
  have hcontent : joined.lex = MiniLisp.lex (first.content ++ ofChar '\n' :: second.content) := by
    cases h with
    | text t u => rfl
    | bytes b c => simp only [Source.lex, Utf8.decode_line (decode_bytes hfirst)
        (decode_bytes hsecond)]
  have he := lex_content hfirst
  have he' := lex_content hsecond
  rw [he] at hfirst ⊢
  rw [he'] at hsecond ⊢
  have hrenders := (renders_of_lexFrom hfirst).line (renders_of_lexFrom hsecond)
  obtain ⟨hfailure, hlexemes⟩ := hrenders.lex
  rw [hcontent]
  refine ⟨hfailure, ?_⟩
  simp only [Lexed.significant_eq, hlexemes, List.filter_append]
  rfl

end Source

/-! ## Trees -/

/-- What two documents that read as these data read as together, or what is wrong with them then.
Documents are lists and maps. -/
def Datum.followedBy : Datum → Datum → Except ReadFault Datum
  | .list [], w => .ok w
  | v, .list [] => .ok v
  | .list items, .list items' => .ok (.list (items ++ items'))
  | .map key value rest, .map key' value' rest' =>
    .ok (.map key value (rest ++ (key', value') :: rest'))
  | .list _, .map _ _ _ => .error .colonInList
  | .map _ _ _, .list [_] => .error .missingColon
  | .map _ _ _, .list _ => .error .itemInMap
  | v, _ => .ok v

theorem Datum.followedBy_list (items items' : List Datum) :
    followedBy (.list items) (.list items') = .ok (.list (items ++ items')) := by
  cases items <;> cases items' <;> simp [followedBy]

namespace Grammar

variable {d : Nat} {xs ys : List Lexeme}

/-- No items have no lexemes. -/
theorem Items.eq_nil {α : Type} (h : Items d xs ([] : List (Tree α))) : xs = [] := by
  cases h
  rfl

/-- An item starts with an atom or an opening parenthesis. -/
theorem Item.exists_cons {α : Type} {v : Tree α} (h : Item d xs v) :
    ∃ x xs', xs = x :: xs' ∧ x.kind ≠ .colon ∧ x.kind ≠ .rparen := by
  cases h with
  | @atom _ x form hform =>
    refine ⟨x, [], rfl, ?_, ?_⟩ <;>
    · intro hk
      rw [hk] at hform
      cases hform
  | parens hl hr hbody =>
    refine ⟨_, _, rfl, ?_, ?_⟩ <;>
    · intro hk
      rw [hl] at hk
      cases hk

/-- What goes on in its own kind is derived as one body. -/
theorem Body.followedBy {u v w : Datum} (hv : Body d xs v) (hw : Body d ys w)
    (h : v.followedBy w = .ok u) : Body d (xs ++ ys) u := by
  cases hv with
  | @list _ _ items hs =>
    cases hw with
    | list hs' =>
      rw [Datum.followedBy_list] at h
      cases h
      exact .list (hs.append hs')
    | map hes =>
      cases items with
      | nil =>
        cases h
        rw [hs.eq_nil]
        exact .map hes
      | cons item items => cases h
  | map hes =>
    cases hw with
    | @list _ _ items hs =>
      match items with
      | [] =>
        cases h
        rw [hs.eq_nil, List.append_nil]
        exact .map hes
      | [_] => cases h
      | _ :: _ :: _ => cases h
    | map hes' =>
      cases h
      exact .map (hes.append hes')

end Grammar

/-! ## Where the kinds differ -/

namespace Reading.State

variable {α : Type} {place : Place} {outer : List (Position × Body α)} {t : Token}

/-- Two items make a list, and a list holds no colon. -/
theorem step_colon_in_list {items : List (Tree α)} (hitems : 2 ≤ items.length)
    (h : t.kind = .colon) :
    step place ⟨.item (.ofItems items), outer⟩ t = .fail ⟨.colonInList, t.position⟩ := by
  match items with
  | _ :: _ :: _ => simp [Body.ofItems, step, h]

end Reading.State

section Refused

open Reading.State

variable {limit : Int} {xs ys : List Lexeme} {ts : List Token} {last : Position}
  {events : List Event}

/-- The items of a list and one item more are taken in as a longer list. -/
theorem takes_item_after_list {items : List Datum} {k : Datum} {front key : List Token}
    (hs : Grammar.Items limit.toNat (front.map Token.lexeme) items)
    (hk : Grammar.Item limit.toNat (key.map Token.lexeme) k)
    (hcomment : ∀ t ∈ front ++ key, t.kind ≠ .comment) :
    Takes ⟨0, limit, none⟩ .start (front ++ key) ⟨.item (.ofItems (items ++ [k])), []⟩ := by
  have hitems : Takes ⟨0, limit.toNat, none⟩ ⟨.item (.ofItems []), []⟩ front
      ⟨.item (.ofItems items), []⟩ := items_takes hs rfl [] [] (by simp)
  obtain ⟨p, -, hput⟩ : ∃ p, _ ∧ Takes ⟨0, limit.toNat, none⟩ ⟨.item (.ofItems items), []⟩ key
      ⟨(Body.ofItems items).put k p, []⟩ := item_takes hk rfl _ [] (by simp)
  rw [Body.put_ofItems] at hput
  exact (hitems.append hput).of_limit hcomment (by omega)

/-- The entries of a map and one item more are taken in, the item as a key without its colon. -/
theorem takes_item_after_map {e : Datum × Datum} {es : List (Datum × Datum)} {k : Datum}
    {front key : List Token}
    (hes : Grammar.Entries limit.toNat (front.map Token.lexeme) (e :: es))
    (hk : Grammar.Item limit.toNat (key.map Token.lexeme) k)
    (hcomment : ∀ t ∈ front ++ key, t.kind ≠ .comment) :
    ∃ p, Takes ⟨0, limit, none⟩ .start (front ++ key) ⟨.colon e es k p, []⟩ := by
  have hentries : Takes ⟨0, limit.toNat, none⟩ ⟨.item (.ofEntries []), []⟩ front
      ⟨.item (.ofEntries (e :: es)), []⟩ := entries_takes hes rfl [] [] (by simp)
  obtain ⟨p, -, hput⟩ : ∃ p, _ ∧ Takes ⟨0, limit.toNat, none⟩ ⟨.item (.ofEntries (e :: es)), []⟩
      key ⟨.colon e es k p, []⟩ := item_takes hk rfl _ [] (by simp)
  exact ⟨p, (hentries.append hput).of_limit hcomment (by omega)⟩

/-- A list followed by a map is refused at the colon after the first key of the map. -/
theorem feed_map_after_list {item : Datum} {items : List Datum} {e : Datum × Datum}
    {es : List (Datum × Datum)} (hs : Grammar.Items limit.toNat xs (item :: items))
    (hes : Grammar.Entries limit.toNat ys (e :: es)) (hts : ts.map Token.lexeme = xs ++ ys)
    (hcomment : ∀ t ∈ ts, t.kind ≠ .comment) :
    ∃ p, (Stream.feed ⟨0, limit, none⟩ none (.start : Reading.State Empty) last events ts).1 =
      .error ⟨.colonInList, p⟩ := by
  cases hes with
  | @cons _ ks vs zs c k v _ hk hc hv hrest =>
    obtain ⟨front, back, rfl, rfl, hback⟩ := List.map_eq_append_iff.1 hts
    obtain ⟨key, back, rfl, rfl, hcolon⟩ := List.map_eq_append_iff.1 hback
    obtain ⟨colon, back, rfl, rfl, -⟩ := List.map_eq_cons_iff.1 hcolon
    rw [← List.append_assoc] at hcomment ⊢
    have htakes := takes_item_after_list hs hk fun t ht =>
      hcomment t (List.mem_append_left _ ht)
    have hrefused : step ⟨0, limit, none⟩ ⟨.item (.ofItems (item :: items ++ [k])), []⟩ colon =
        .fail ⟨.colonInList, colon.position⟩ := step_colon_in_list (by simp) hc
    exact ⟨colon.position, (Stream.feed_fail htakes hrefused back none last events).1⟩

/-- A map followed by two items or more is refused at the second one, for want of a colon. -/
theorem feed_items_after_map {e : Datum × Datum} {es : List (Datum × Datum)} {k item : Datum}
    {items : List Datum} (hes : Grammar.Entries limit.toNat xs (e :: es))
    (hs : Grammar.Items limit.toNat ys (k :: item :: items)) (hts : ts.map Token.lexeme = xs ++ ys)
    (hcomment : ∀ t ∈ ts, t.kind ≠ .comment) :
    ∃ p, (Stream.feed ⟨0, limit, none⟩ none (.start : Reading.State Empty) last events ts).1 =
      .error ⟨.itemInMap, p⟩ := by
  cases hs with
  | @cons _ ks zs _ _ hk hrest =>
  cases hrest with
  | @cons _ is zs _ _ hitem hrest =>
    obtain ⟨x, is', rfl, hcolon, hrparen⟩ := hitem.exists_cons
    obtain ⟨front, back, rfl, rfl, hback⟩ := List.map_eq_append_iff.1 hts
    obtain ⟨key, back, rfl, rfl, hsecond⟩ := List.map_eq_append_iff.1 hback
    obtain ⟨second, back, rfl, rfl, -⟩ := List.map_eq_cons_iff.1 hsecond
    rw [← List.append_assoc] at hcomment ⊢
    obtain ⟨p, htakes⟩ := takes_item_after_map hes hk fun t ht =>
      hcomment t (List.mem_append_left _ ht)
    have hrefused : step ⟨0, limit, none⟩ ⟨.colon e es k p, []⟩ second =
        .fail ⟨.itemInMap, p⟩ := step_item_in_map hcolon hrparen
    exact ⟨p, (Stream.feed_fail htakes hrefused back none last events).1⟩

/-- A map followed by one item ends where the colon after that item should be. -/
theorem feed_item_after_map {e : Datum × Datum} {es : List (Datum × Datum)} {k : Datum}
    (hes : Grammar.Entries limit.toNat xs (e :: es)) (hs : Grammar.Items limit.toNat ys [k])
    (hts : ts.map Token.lexeme = xs ++ ys) (hcomment : ∀ t ∈ ts, t.kind ≠ .comment) :
    ∃ p, (Stream.feed ⟨0, limit, none⟩ none (.start : Reading.State Empty) last events ts).1 =
      .error ⟨.missingColon, p⟩ := by
  cases hs with
  | @cons _ ks zs _ _ hk hnil =>
    rw [hnil.eq_nil, List.append_nil] at hts
    obtain ⟨front, key, rfl, rfl, rfl⟩ := List.map_eq_append_iff.1 hts
    obtain ⟨p, htakes⟩ := takes_item_after_map hes hk hcomment
    obtain ⟨last', hend⟩ := (Stream.feed_end htakes none last events).1
    exact ⟨p, hend⟩

/-- **What does not go on in its own kind is refused**, for the reason that `followedBy` gives. -/
theorem feed_followedBy {v w : Datum} {fault : ReadFault}
    (hv : Grammar.Body limit.toNat xs v) (hw : Grammar.Body limit.toNat ys w)
    (h : v.followedBy w = .error fault) (hts : ts.map Token.lexeme = xs ++ ys)
    (hcomment : ∀ t ∈ ts, t.kind ≠ .comment) :
    ∃ p, (Stream.feed ⟨0, limit, none⟩ none (.start : Reading.State Empty) last events ts).1 =
      .error ⟨fault, p⟩ := by
  cases hv with
  | @list _ _ items hs =>
    cases hw with
    | list hs' =>
      rw [Datum.followedBy_list] at h
      cases h
    | map hes =>
      cases items with
      | nil => cases h
      | cons item items =>
        cases h
        exact feed_map_after_list hs hes hts hcomment
  | map hes =>
    cases hw with
    | map hes' => cases h
    | @list _ _ items hs =>
      match items with
      | [] => cases h
      | [k] =>
        cases h
        exact feed_item_after_map hes hs hts hcomment
      | k :: item :: items =>
        cases h
        exact feed_items_after_map hes hs hts hcomment

end Refused

namespace Source

/-- **Documents one after the other read as their trees one after the other.** If two documents read
as `v` and `w`, then with a line feed between them they read as `v` followed by `w`, and where that
is no tree they are refused for the reason why it is none. -/
theorem parse_joined {first second joined : Source} (h : Joined first second joined) {limit : Int}
    {v w : Datum} (hv : (first.parse limit).result = .ok v)
    (hw : (second.parse limit).result = .ok w) :
    (∀ u, v.followedBy w = .ok u → (joined.parse limit).result = .ok u) ∧
      ∀ fault, v.followedBy w = .error fault →
        ∃ p, (joined.parse limit).result = .error ⟨fault, p⟩ := by
  obtain ⟨hfirst, hbody⟩ := (first.parse_ok_iff limit v).1 hv
  obtain ⟨hsecond, hbody'⟩ := (second.parse_ok_iff limit w).1 hw
  obtain ⟨hfailure, hsays⟩ := h.lex hfirst hsecond
  constructor
  · intro u hu
    rw [parse_ok_iff, hsays]
    exact ⟨hfailure, hbody.followedBy hbody' hu⟩
  · intro fault hfault
    have hparse : (joined.parse limit).result =
        (Stream.feed ⟨0, limit, none⟩ joined.lex.failure .start .start [] joined.tokens).1 := rfl
    rw [hparse, hfailure]
    exact feed_followedBy hbody hbody' hfault hsays joined.tokens_ne_comment

/-- The first document ends with a number sign, which would open a guarded string in front of the
quote that the second one starts with. As a list, the first goes on; as a map, it does not. -/
theorem parse_joined_comment_quote :
    ((Source.text "a b#").parse 0).result =
        .ok (.list [.atom ⟨"a", .bare⟩, .atom ⟨"b", .bare⟩]) ∧
      ((Source.text "a:b#").parse 0).result =
        .ok (.map (.atom ⟨"a", .bare⟩) (.atom ⟨"b", .bare⟩) []) ∧
      ((Source.text "\"c\"").parse 0).result = .ok (.list [.atom ⟨"c", .quoted⟩]) ∧
      ((Source.text "a b#\n\"c\"").parse 0).result =
        .ok (.list [.atom ⟨"a", .bare⟩, .atom ⟨"b", .bare⟩, .atom ⟨"c", .quoted⟩]) ∧
      ∃ p, ((Source.text "a:b#\n\"c\"").parse 0).result = .error ⟨.missingColon, p⟩ := by
  have hlist : ((Source.text "a b#").parse 0).result =
      .ok (.list [.atom ⟨"a", .bare⟩, .atom ⟨"b", .bare⟩]) := by cbv
  have hmap : ((Source.text "a:b#").parse 0).result =
      .ok (.map (.atom ⟨"a", .bare⟩) (.atom ⟨"b", .bare⟩) []) := by cbv
  have hquoted : ((Source.text "\"c\"").parse 0).result =
      .ok (.list [.atom ⟨"c", .quoted⟩]) := by cbv
  exact ⟨hlist, hmap, hquoted, (parse_joined (.text _ _) hlist hquoted).1 _ rfl,
    (parse_joined (.text _ _) hmap hquoted).2 _ rfl⟩

end Source

end MiniLisp
