import MiniLisp.Document.Read
import MiniLisp.Proofs.Document.Relocation
import MiniLisp.Proofs.Document.Spacing
import MiniLisp.Proofs.Text.Encoding
import MiniLisp.Proofs.Token.Segmentation

/-!
# Line ends of stored documents

Loading a stored document turns its line ends into line feeds before the lexer sees them. If every
carriage return stands in front of a line feed (`Text.ReturnsPaired`), this takes the carriage
returns out and nothing else (`Text.unifyLineEnds_eq`). The lexer loses nothing by it: outside
quoted and guarded strings such a carriage return is white space or the end of a comment, and either
way no token follows it in its line.

* `Position.Abreast p q s`: what two places in front of `s` have in common while both texts are read.
* `lexFrom_withoutReturns`: **the two texts have the same tokens at the same lines and columns.**
* `Source.load_encode`: so a document that is stored and loaded is read as the text in memory.
-/

namespace MiniLisp

open CodePoint (ofChar)

/-! ## Carriage returns in front of line feeds -/

namespace Text

/-- Every carriage return is followed by a line feed at once. -/
def ReturnsPaired (t : Text) : Prop :=
  ∀ u s, t = u ++ ofChar '\r' :: s → s.head? = some (ofChar '\n')

def withoutReturns (t : Text) : Text := t.filter (· ≠ ofChar '\r')

theorem withoutReturns_append (t u : Text) :
    (t ++ u).withoutReturns = t.withoutReturns ++ u.withoutReturns := List.filter_append t u

theorem withoutReturns_cons_return (t : Text) :
    withoutReturns (ofChar '\r' :: t) = t.withoutReturns := List.filter_cons_of_neg (by simp)

theorem withoutReturns_cons {c : CodePoint} (hc : c ≠ ofChar '\r') (t : Text) :
    withoutReturns (c :: t) = c :: t.withoutReturns :=
  List.filter_cons_of_pos (decide_eq_true hc)

theorem withoutReturns_of_notMem {t : Text} (h : ofChar '\r' ∉ t) : t.withoutReturns = t :=
  List.filter_eq_self.2 fun _ hc => decide_eq_true fun heq => h (heq ▸ hc)

theorem notMem_withoutReturns (t : Text) : ofChar '\r' ∉ t.withoutReturns := by
  intro h
  simpa using (List.mem_filter.1 h).2

theorem returnsPaired_nil : ReturnsPaired [] := by
  intro u s h
  cases u <;> cases h

theorem returnsPaired_cons {c : CodePoint} {t : Text} :
    ReturnsPaired (c :: t) ↔
      (c = ofChar '\r' → t.head? = some (ofChar '\n')) ∧ t.ReturnsPaired := by
  constructor
  · intro h
    refine ⟨?_, ?_⟩
    · rintro rfl
      exact h [] t rfl
    · rintro u s rfl
      exact h (c :: u) s rfl
  · rintro ⟨hc, ht⟩ u s h
    cases u with
    | nil =>
      obtain ⟨rfl, rfl⟩ := List.cons.inj h
      exact hc rfl
    | cons d u =>
      obtain ⟨rfl, rfl⟩ := List.cons.inj h
      exact ht u s rfl

instance decidableReturnsPaired : (t : Text) → Decidable t.ReturnsPaired
  | [] => isTrue returnsPaired_nil
  | _ :: t =>
    have := decidableReturnsPaired t
    decidable_of_iff _ returnsPaired_cons.symm

theorem ReturnsPaired.right {t u : Text} (h : ReturnsPaired (t ++ u)) : u.ReturnsPaired := by
  rintro v s rfl
  exact h (t ++ v) s (List.append_assoc t v _).symm

/-- **Paired carriage returns are all that a stored text loses.** -/
theorem unifyLineEnds_eq {t : Text} (h : t.ReturnsPaired) :
    t.unifyLineEnds = t.withoutReturns := by
  induction t using unifyLineEnds.induct with
  | case1 => rfl
  | case2 =>
    -- a carriage return at the very end has no line feed after it
    cases (returnsPaired_cons.1 h).1 rfl
  | case3 s ih =>
    have hs : ReturnsPaired s := (returnsPaired_cons.1 (returnsPaired_cons.1 h).2).2
    rw [withoutReturns_cons_return, withoutReturns_cons (by decide), ← ih hs]
    simp [unifyLineEnds]
  | case4 d s hd ih =>
    have hhead : d = ofChar '\n' := Option.some.inj ((returnsPaired_cons.1 h).1 rfl)
    exact absurd hhead hd
  | case5 c s hc ih =>
    have hs : ReturnsPaired s := (returnsPaired_cons.1 h).2
    rw [withoutReturns_cons hc, ← ih hs, unifyLineEnds.eq_def]
    exact if_neg hc

/-- What comes first is still there, unless it is a carriage return, and then it is a line feed. -/
theorem ReturnsPaired.head?_withoutReturns {t : Text} (h : t.ReturnsPaired) :
    t.withoutReturns.head? = t.head? ∨
      t.head? = some (ofChar '\r') ∧ t.withoutReturns.head? = some (ofChar '\n') := by
  cases t with
  | nil => exact .inl rfl
  | cons c t =>
    by_cases hc : c = ofChar '\r'
    · subst hc
      obtain ⟨s, rfl⟩ := List.head?_eq_some_iff.1 ((returnsPaired_cons.1 h).1 rfl)
      right
      rw [withoutReturns_cons_return, withoutReturns_cons (by decide)]
      exact ⟨rfl, rfl⟩
    · left
      rw [withoutReturns_cons hc]
      rfl

end Text

/-! ## Comments -/

theorem Text.stripReturns_of_notMem {t : Text} (h : ofChar '\r' ∉ t) : t.stripReturns = t := by
  have hreverse : t.reverse.dropWhile (· = ofChar '\r') = t.reverse := by
    cases hr : t.reverse with
    | nil => rfl
    | cons c r =>
      have hc : c ≠ ofChar '\r' := by
        rintro rfl
        exact h (List.mem_reverse.1 (hr ▸ List.mem_cons_self))
      exact List.dropWhile_cons_of_neg (by simpa using hc)
  unfold stripReturns
  rw [hreverse, List.reverse_reverse]

theorem Text.stripReturns_append_return (t : Text) :
    stripReturns (t ++ [ofChar '\r']) = t.stripReturns := by
  unfold stripReturns
  rw [List.reverse_append, List.reverse_singleton, List.singleton_append,
    List.dropWhile_cons_of_pos (by decide)]

/-- Within a line there is at most one paired carriage return, at the end. -/
theorem Text.eq_withoutReturns {t s : Text} (hpaired : ReturnsPaired (t ++ s))
    (hline : ofChar '\n' ∉ t) :
    t = t.withoutReturns ∨ t = t.withoutReturns ++ [ofChar '\r'] := by
  induction t with
  | nil => exact .inl rfl
  | cons c t ih =>
    obtain ⟨hc, hrest⟩ := returnsPaired_cons.1 hpaired
    obtain ⟨-, hline'⟩ := not_or.1 (mt List.mem_cons.2 hline)
    by_cases heq : c = ofChar '\r'
    · subst heq
      cases t with
      | nil => exact .inr rfl
      | cons d t =>
        -- the line feed after it would be in the line
        obtain rfl : d = ofChar '\n' := Option.some.inj (hc rfl)
        exact absurd List.mem_cons_self hline'
    · rw [withoutReturns_cons heq]
      rcases ih hrest hline' with ht | ht
      · exact .inl (congrArg _ ht)
      · exact .inr (congrArg _ ht)

/-! ## One token -/

/-- Whether a piece is a quoted or guarded string, which keeps every line end in it. -/
def Piece.isString : Piece → Bool
  | .blank => false
  | .token kind _ => kind = .quoted || kind = .guarded

/-- No token starts with the end of a line. -/
theorem Spells.head?_ne {x : Lexeme} {u : Text} (h : Spells x u) (s : Text) :
    (u ++ s).head? ≠ some (ofChar '\n') := by
  cases h with
  | bare hu =>
    cases u with
    | nil => cases hu
    | cons c v =>
      intro hc
      obtain rfl : c = ofChar '\n' := Option.some.inj hc
      exact absurd (Text.isBareWord_cons.1 hu).1 (by decide)
  | _ => exact fun hc => absurd (Option.some.inj hc) (by decide)

/-- **A token is spelt without its carriage returns too**, if it is no string with some in it. -/
theorem Spells.withoutReturns {x : Lexeme} {u s : Text} (h : Spells x u)
    (hpaired : Text.ReturnsPaired (u ++ s))
    (hstring : (Piece.token x.kind x.text).isString = true → ofChar '\r' ∉ u) :
    Spells x u.withoutReturns := by
  cases h with
  | bare hu =>
    have hmem : ofChar '\r' ∉ u := by
      intro hc
      have hbare := List.all_eq_true.1 (Bool.and_eq_true_iff.1 hu).2 _ hc
      exact absurd hbare (by decide)
    rw [Text.withoutReturns_of_notMem hmem]
    exact .bare hu
  | quoted hu =>
    rw [Text.withoutReturns_of_notMem (hstring rfl)]
    exact .quoted hu
  | guarded ht =>
    rw [Text.withoutReturns_of_notMem (hstring rfl)]
    exact .guarded ht
  | lparen => exact .lparen
  | rparen => exact .rparen
  | colon => exact .colon
  | @comment t hline hopen =>
    have hmem := Text.notMem_withoutReturns t
    have hline' : ofChar '\n' ∉ t.withoutReturns := fun hc => hline (List.mem_filter.1 hc).1
    -- a comment keeps no carriage return at its end, and there is none anywhere else
    obtain ⟨hstrip, hopen'⟩ : t.stripReturns = t.withoutReturns ∧
        t.withoutReturns.head? ≠ some (ofChar '"') := by
      rcases Text.eq_withoutReturns (Text.returnsPaired_cons.1 hpaired).2 hline with ht | ht
      · rw [← ht] at hmem ⊢
        exact ⟨Text.stripReturns_of_notMem hmem, hopen⟩
      · have hstrip := Text.stripReturns_append_return t.withoutReturns
        rw [← ht, Text.stripReturns_of_notMem hmem] at hstrip
        refine ⟨hstrip, fun hquote => hopen ?_⟩
        rw [ht, List.head?_append, hquote]
        rfl
    rw [Text.withoutReturns_cons (by decide), hstrip]
    have hcomment := Spells.comment hline' hopen'
    rwa [Text.stripReturns_of_notMem hmem] at hcomment

/-- What ends a lexeme still does when the carriage returns are gone. -/
theorem Lexeme.Stops.withoutReturns {x : Lexeme} {s : Text} (h : x.Stops s)
    (hpaired : s.ReturnsPaired) : x.Stops s.withoutReturns := by
  unfold Lexeme.Stops at h ⊢
  split at h
  · intro c hc
    rcases hpaired.head?_withoutReturns with heq | ⟨-, heq⟩
    · exact h c (heq ▸ hc)
    · obtain rfl : ofChar '\n' = c := Option.some.inj (heq.symm.trans hc)
      decide
  · intro c hc
    rcases hpaired.head?_withoutReturns with heq | ⟨-, heq⟩
    · exact h c (heq ▸ hc)
    · exact (Option.some.inj (heq.symm.trans hc)).symm
  · trivial

/-! ## Both texts side by side -/

namespace Position

/-- The line and the column alone. -/
def withoutOffset (p : Position) : Position := { p with offset := 0 }

/-- Two places in front of the text `s`, one of them in a text without the carriage returns: they are
in the same line, and in the same column too, unless only the end of the line follows. -/
structure Abreast (p q : Position) (s : Text) : Prop where
  line : p.line = q.line
  column : p.column = q.column ∨ s.head? = some (ofChar '\n')

/-- In front of anything but the end of the line, the two places look the same. -/
theorem Abreast.withoutOffset_eq {p q : Position} {s : Text} (h : p.Abreast q s)
    (hs : s.head? ≠ some (ofChar '\n')) : p.withoutOffset = q.withoutOffset := by
  have hcolumn := h.column.resolve_right hs
  unfold withoutOffset
  rw [h.line, hcolumn]

/-- One code point on: a carriage return moves one place only, and a line feed lines them up. -/
theorem Abreast.cons {p q : Position} {c : CodePoint} {s : Text} (h : p.Abreast q (c :: s))
    (hpaired : Text.ReturnsPaired (c :: s)) :
    (p.advance c).Abreast (q.after (Text.withoutReturns [c])) s := by
  obtain ⟨hc, -⟩ := Text.returnsPaired_cons.1 hpaired
  by_cases hreturn : c = ofChar '\r'
  · subst hreturn
    exact ⟨h.line, .inr (hc rfl)⟩
  rw [Text.withoutReturns_cons hreturn]
  show (p.advance c).Abreast (q.advance c) s
  unfold advance
  by_cases hline : c = ofChar '\n'
  · rw [if_pos hline, if_pos hline]
    exact ⟨congrArg (· + 1) h.line, .inl rfl⟩
  · have hcolumn : p.column = q.column :=
      h.column.resolve_right fun heq => hline (Option.some.inj heq)
    rw [if_neg hline, if_neg hline]
    exact ⟨h.line, .inl (congrArg (· + 1) hcolumn)⟩

/-- Places stay abreast over any part of the text. -/
theorem Abreast.after {p q : Position} {w s : Text} (h : p.Abreast q (w ++ s))
    (hpaired : Text.ReturnsPaired (w ++ s)) : (p.after w).Abreast (q.after w.withoutReturns) s := by
  induction w generalizing p q with
  | nil => exact h
  | cons c w ih =>
    have hsplit : Text.withoutReturns (c :: w) =
        Text.withoutReturns [c] ++ Text.withoutReturns w := Text.withoutReturns_append [c] w
    rw [hsplit, after_append]
    exact ih (h.cons hpaired) (Text.returnsPaired_cons.1 hpaired).2

end Position

/-- **Without its carriage returns a text has the same tokens at the same lines and columns.** -/
theorem lexFrom_withoutReturns {p q : Position} {s : Text} (h : (lexFrom p s).failure = none)
    (hpaired : s.ReturnsPaired)
    (hstrings : ∀ e ∈ s.pieces, e.1.isString = true → ofChar '\r' ∉ e.2)
    (hplaces : p.Abreast q s) :
    (lexFrom p s).relocate Position.withoutOffset =
      (lexFrom q s.withoutReturns).relocate Position.withoutOffset := by
  induction s using Text.pieces.induct generalizing p q with
  | case1 =>
    show _ = (lexFrom q []).relocate Position.withoutOffset
    rw [lexFrom, lexFrom]
  | case2 c rest e hscan =>
    rw [lexFrom] at h
    simp [hscan] at h
  | case3 c rest piece more hscan ih =>
    rw [lexFrom] at h ⊢
    rw [Text.pieces] at hstrings
    simp only [hscan, List.mem_cons] at h hstrings ⊢
    cases piece with
    | blank =>
      obtain ⟨v, s, rfl, rfl, hblank⟩ := blank_of_scan hscan
      simp only [List.take_left, List.drop_left] at ih h hstrings ⊢
      rw [← List.cons_append] at hpaired hplaces ⊢
      -- without its carriage returns the white space is white space
      have hblank' : ∀ d ∈ Text.withoutReturns (c :: v), d.isBlank = true :=
        fun d hd => hblank d (List.mem_filter.1 hd).1
      rw [Text.withoutReturns_append, lexFrom_blanks hblank']
      exact ih h hpaired.right (fun e he => hstrings e (.inr he)) (hplaces.after hpaired)
    | token kind text =>
      obtain ⟨v, s, rfl, rfl, hspells, hstops⟩ := spells_of_scan hscan
      simp only [List.take_left, List.drop_left] at ih h hstrings ⊢
      rw [← List.cons_append] at hpaired hplaces ⊢
      have hspells' := hspells.withoutReturns hpaired (hstrings _ (.inl rfl))
      have hstops' := hstops.withoutReturns hpaired.right
      have hrest := ih h hpaired.right (fun e he => hstrings e (.inr he)) (hplaces.after hpaired)
      have hplace := hplaces.withoutOffset_eq (hspells.head?_ne s)
      rw [Text.withoutReturns_append, lexFrom_spelled hspells' hstops']
      exact Lexed.relocate_cons _ hplace hrest

/-! ## Stored documents -/

/-- Two errors of reading that look the same: they may differ in how many bytes come before. -/
structure ReadError.LooksLike (e e' : ReadError) : Prop where
  fault : e.fault = e'.fault
  line : e.position.line = e'.position.line
  column : e.position.column = e'.position.column
  message : e.message = e'.message

theorem ReadError.looksLike_of_relocate {e e' : ReadError}
    (h : e.relocate Position.withoutOffset = e'.relocate Position.withoutOffset) :
    e.LooksLike e' := by
  obtain ⟨hfault, hposition⟩ := ReadError.mk.inj h
  obtain ⟨-, hline, hcolumn⟩ := Position.mk.inj hposition
  refine ⟨hfault, hline, hcolumn, ?_⟩
  unfold ReadError.message Text.located
  dsimp only
  rw [hfault, hline, hcolumn]

namespace Source

/-- Two outcomes of reading that look the same. -/
inductive LooksLike : Except Error Datum → Except Error Datum → Prop
  /-- The same tree, with the form of every atom. -/
  | ok (d : Datum) : LooksLike (.ok d) (.ok d)
  | error {e e' : ReadError} : e.LooksLike e' → LooksLike (.error (.read e)) (.error (.read e'))
  /-- There was no limit to read it under. -/
  | setting (e : SettingError) : LooksLike (.error (.setting e)) (.error (.setting e))

/-- Texts with the same tokens at the same lines and columns are read alike. -/
theorem read_looksLike {t t' : Text}
    (h : (MiniLisp.lex t).relocate Position.withoutOffset =
      (MiniLisp.lex t').relocate Position.withoutOffset) (limit : Except SettingError Int) :
    LooksLike ((text t).read limit).1 ((text t').read limit).1 ∧
      ((text t).read limit).2 = ((text t').read limit).2 := by
  cases limit with
  | error e => exact ⟨.setting e, rfl⟩
  | ok n =>
    obtain ⟨hresult, hevents⟩ : ((text t).parse n).result.mapError _ =
          ((text t').parse n).result.mapError _ ∧
        ((text t).parse n).events = ((text t').parse n).events :=
      Stream.document_congr Position.withoutOffset rfl h n
    refine ⟨?_, hevents⟩
    unfold read
    dsimp only
    generalize ((text t).parse n).result = r at hresult ⊢
    generalize ((text t').parse n).result = r' at hresult ⊢
    cases r with
    | ok d =>
      cases r' with
      | ok d' =>
        obtain rfl : d = d' := Except.ok.inj hresult
        exact .ok d
      | error e' => cases hresult
    | error e =>
      cases r' with
      | ok d' => cases hresult
      | error e' => exact .error (ReadError.looksLike_of_relocate (Except.error.inj hresult))

/-- **A stored document is read like the text in memory.** Take a text that UTF-8 can encode and
that is cut into tokens to its end, with carriage returns only in front of line feeds and none of
them within a quoted or guarded string. Loaded from its bytes it is the same tree, with the same
forms, as when the text is read directly, or it is refused for the same fault, with the same message
and at the same line and column; and the same happens on the way. -/
theorem load_encode {t : Text} (hscalar : ∀ c ∈ t, c.isSurrogate = false)
    (hlex : (MiniLisp.lex t).failure = none) (hpaired : t.ReturnsPaired)
    (hstrings : ∀ e ∈ t.pieces, e.1.isString = true → ofChar '\r' ∉ e.2)
    (limit : Except SettingError Int) :
    LooksLike ((bytes (Utf8.encode t)).load limit).1 ((text t).read limit).1 ∧
      ((bytes (Utf8.encode t)).load limit).2 = ((text t).read limit).2 := by
  have hdecode : Utf8.decode (Utf8.encode t) = (t, none) :=
    Utf8.Encodes.decode_eq ⟨hscalar, rfl⟩
  have hload : (bytes (Utf8.encode t)).load limit = (text t.withoutReturns).read limit := by
    unfold load stored toBytes
    simp only [hdecode, Text.unifyLineEnds_eq hpaired]
  have hplaces : Position.start.Abreast .start t := ⟨rfl, .inl rfl⟩
  have htokens := lexFrom_withoutReturns hlex hpaired hstrings hplaces
  rw [hload]
  exact read_looksLike htokens.symm limit

theorem LooksLike.eq_ok {r : Except Error Datum} {d : Datum} (h : LooksLike r (.ok d)) :
    r = .ok d := by
  cases h
  rfl

/-- Line ends in white space, behind comments and in an empty line, and a line feed within a guarded
string; and line ends in front of a fault. -/
theorem load_encode_lines :
    ((text "a # one\r\n\r\n(#\r\n #\"b\n\"# )\r\n").read (.ok 1)).1 =
        .ok (.list [.atom ⟨"a", .bare⟩, .list [.atom ⟨"b\n", .guarded⟩]]) ∧
      ((bytes (Utf8.encode "a # one\r\n\r\n(#\r\n #\"b\n\"# )\r\n")).load (.ok 1)).1 =
        .ok (.list [.atom ⟨"a", .bare⟩, .list [.atom ⟨"b\n", .guarded⟩]]) ∧
      ((text "a # one\r\n: (\r\n b : )").read (.ok 1)).1 =
        .error (.read ⟨.missingValue ")", ⟨19, 3, 6⟩⟩) ∧
      LooksLike ((bytes (Utf8.encode "a # one\r\n: (\r\n b : )")).load (.ok 1)).1
        (.error (.read ⟨.missingValue ")", ⟨19, 3, 6⟩⟩)) := by
  have hread : ((text "a # one\r\n\r\n(#\r\n #\"b\n\"# )\r\n").read (.ok 1)).1 =
      .ok (.list [.atom ⟨"a", .bare⟩, .list [.atom ⟨"b\n", .guarded⟩]]) := by cbv
  have hrefused : ((text "a # one\r\n: (\r\n b : )").read (.ok 1)).1 =
      .error (.read ⟨.missingValue ")", ⟨19, 3, 6⟩⟩) := by cbv
  have hstring : (Text.ofString "a # one\r\n\r\n(#\r\n #\"b\n\"# )\r\n").pieces.filter
      (fun e => e.1.isString) = [(Piece.token .guarded "b\n", Text.ofString "#\"b\n\"#")] := by cbv
  have hnone : (Text.ofString "a # one\r\n: (\r\n b : )").pieces.filter
      (fun e => e.1.isString) = [] := by cbv
  have hclean : ∀ e ∈ (Text.ofString "a # one\r\n\r\n(#\r\n #\"b\n\"# )\r\n").pieces,
      e.1.isString = true → ofChar '\r' ∉ e.2 := by
    intro e he hs
    obtain rfl := List.mem_singleton.1 (hstring ▸ List.mem_filter.2 ⟨he, hs⟩)
    decide
  have hclean' : ∀ e ∈ (Text.ofString "a # one\r\n: (\r\n b : )").pieces,
      e.1.isString = true → ofChar '\r' ∉ e.2 := by
    intro e he hs
    cases hnone ▸ List.mem_filter.2 ⟨he, hs⟩
  have hgood := (load_encode (by decide) (by cbv) (by decide) hclean (.ok 1)).1
  have hbad := (load_encode (by decide) (by cbv) (by decide) hclean' (.ok 1)).1
  rw [hread] at hgood
  rw [hrefused] at hbad
  exact ⟨hread, hgood.eq_ok, hrefused, hbad⟩

end Source

end MiniLisp
