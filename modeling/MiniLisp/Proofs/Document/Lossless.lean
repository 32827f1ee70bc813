import MiniLisp.Proofs.Datum.Faithful

/-!
# Reading loses nothing but layout

The tree that a document reads as still has every token of it, in order: the parentheses are its
lists and maps, the colons its entries, and an atom keeps its text and the form it was written in.
So **the lexemes of the tree are those of the document** (`Source.documentLexemes_of_parse`). Written
down again, the tree says what the document said, and two documents with the same tree differ in
white space, comments and the spelling of strings only (`Source.parse_lossless`).

* `Grammar.Item.lexemes_eq`, `Grammar.Body.documentLexemes_eq`: a derivation leads back to the
  lexemes that it started from, as long as these can be spelt.
-/

namespace MiniLisp

/-! ## One lexeme -/

theorem Form.kind_of_form? {kind : TokenKind} {form : Form} (h : kind.form? = some form) :
    form.kind = kind := by
  cases kind <;> cases h <;> rfl

namespace Spells

variable {x : Lexeme} {u : Text}

theorem eq_lparen (h : Spells x u) (hx : x.kind = .lparen) : x = .lparen := by
  cases h with
  | lparen => rfl
  | _ => cases hx

theorem eq_rparen (h : Spells x u) (hx : x.kind = .rparen) : x = .rparen := by
  cases h with
  | rparen => rfl
  | _ => cases hx

theorem eq_colon (h : Spells x u) (hx : x.kind = .colon) : x = .colon := by
  cases h with
  | colon => rfl
  | _ => cases hx

/-- An atom is written as the lexeme that it was read from. -/
theorem lexeme_atom {form : Form} (h : Spells x u) (hform : x.kind.form? = some form) :
    Atom.lexeme ⟨x.text, form⟩ = x := by
  have hnormal : Atom.normalForm ⟨x.text, form⟩ = form :=
    congrArg Atom.form (h.wellFormed hform).normal_eq
  rw [Atom.lexeme, hnormal, Form.kind_of_form? hform]

end Spells

/-! ## Derivations -/

namespace Grammar

/-- A list or map in parentheses has the lexemes of its body between them. -/
theorem Body.lexemes_eq {d : Nat} {xs : List Lexeme} {v : Datum} (h : Body d xs v) :
    v.lexemes = .lparen :: (v.documentLexemes ++ [.rparen]) := by
  cases h with
  | list => exact Datum.lexemes_list _
  | map => exact Datum.lexemes_map _ _ _

mutual

/-- **The lexemes of an item are those that it was derived from.** -/
theorem Item.lexemes_eq {d : Nat} {xs : List Lexeme} {v : Datum} (h : Item d xs v)
    (hxs : ∀ x ∈ xs, ∃ u, Spells x u) : v.lexemes = xs := by
  match h with
  | @Item.atom _ _ x form hform =>
    obtain ⟨u, hx⟩ := hxs x List.mem_cons_self
    rw [Datum.lexemes_atom, hx.lexeme_atom hform]
  | @Item.parens _ d l r xs _ hl hr hbody =>
    obtain ⟨⟨u, hleft⟩, hrest⟩ := List.forall_mem_cons.1 hxs
    obtain ⟨hinside, hlast⟩ := List.forall_mem_append.1 hrest
    obtain ⟨u', hright⟩ := List.forall_mem_singleton.1 hlast
    rw [hbody.lexemes_eq, Body.documentLexemes_eq hbody hinside, hleft.eq_lparen hl,
      hright.eq_rparen hr]

/-- The lexemes of a document are those that it was derived from. -/
theorem Body.documentLexemes_eq {d : Nat} {xs : List Lexeme} {v : Datum} (h : Body d xs v)
    (hxs : ∀ x ∈ xs, ∃ u, Spells x u) : v.documentLexemes = xs := by
  match h with
  | .list hitems => exact Items.flatMap_lexemes hitems hxs
  | .map hentries => exact Entries.flatMap_lexemes hentries hxs

theorem Items.flatMap_lexemes {d : Nat} {xs : List Lexeme} {vs : List Datum} (h : Items d xs vs)
    (hxs : ∀ x ∈ xs, ∃ u, Spells x u) : vs.flatMap Datum.lexemes = xs := by
  match h with
  | .nil => rfl
  | .cons hitem hitems =>
    obtain ⟨hleft, hright⟩ := List.forall_mem_append.1 hxs
    rw [List.flatMap_cons, Item.lexemes_eq hitem hleft, Items.flatMap_lexemes hitems hright]

theorem Entries.flatMap_lexemes {d : Nat} {xs : List Lexeme} {es : List (Datum × Datum)}
    (h : Entries d xs es) (hxs : ∀ x ∈ xs, ∃ u, Spells x u) :
    es.flatMap Datum.entryLexemes = xs := by
  match h with
  | .nil => rfl
  | .cons hkey hc hvalue hentries =>
    obtain ⟨hleft, hrest⟩ := List.forall_mem_append.1 hxs
    obtain ⟨⟨u, hcolon⟩, hrest⟩ := List.forall_mem_cons.1 hrest
    obtain ⟨hmiddle, hright⟩ := List.forall_mem_append.1 hrest
    rw [List.flatMap_cons, Datum.entryLexemes, Item.lexemes_eq hkey hleft,
      Item.lexemes_eq hvalue hmiddle, Entries.flatMap_lexemes hentries hright,
      hcolon.eq_colon hc, List.append_assoc, List.cons_append]

end

end Grammar

/-! ## Documents -/

namespace Source

/-- **The lexemes of the tree are those of the document.** -/
theorem documentLexemes_of_parse {source : Source} {limit : Int} {v : Datum}
    (h : (source.parse limit).result = .ok v) : v.documentLexemes = source.lex.significant := by
  obtain ⟨hfail, hbody⟩ := (source.parse_ok_iff limit v).1 h
  exact hbody.documentLexemes_eq (exists_spells hfail)

/-- The limit decides whether a document is read, and not what it reads as. -/
theorem parse_unique {source : Source} {limit limit' : Int} {v w : Datum}
    (hv : (source.parse limit).result = .ok v) (hw : (source.parse limit').result = .ok w) :
    v = w := by
  have hlower {limit limit' : Int} {v w : Datum} (hle : limit ≤ limit')
      (hv : (source.parse limit).result = .ok v) (hw : (source.parse limit').result = .ok w) :
      v = w := by
    rcases source.parse_limit hle with heq | ⟨p, hdeep⟩
    · rw [hv, hw] at heq
      exact Except.ok.inj heq
    · rw [hv] at hdeep
      cases hdeep
  rcases Int.le_total limit limit' with hle | hle
  · exact hlower hle hv hw
  · exact (hlower hle hw hv).symm

/-- **Reading loses nothing but layout.** Written down as a document again, what a document reads as
has the lexemes of the document, comments aside, each of them once, in order and of the same kind.
So two documents that can be read, whatever the limits, have the same tree if and only if they say
the same. -/
theorem parse_lossless {source : Source} {limit : Int} {v : Datum}
    (h : (source.parse limit).result = .ok v) :
    (MiniLisp.lex v.serializeDocument).failure = none ∧
    (MiniLisp.lex v.serializeDocument).lexemes = source.lex.significant ∧
    ∀ (other : Source) (limit' : Int) (w : Datum), (other.parse limit').result = .ok w →
      (v = w ↔ source.lex.significant = other.lex.significant) := by
  have hlexemes := documentLexemes_of_parse h
  obtain ⟨hfail, hwritten⟩ := (Datum.writes_document v).renders.lex
  refine ⟨hfail, hwritten.trans hlexemes, ?_⟩
  intro other limit' w hw
  constructor
  · rintro rfl
    exact hlexemes.symm.trans (documentLexemes_of_parse hw)
  · intro hsame
    -- the other document says the same, so it reads as `v` under the first limit
    obtain ⟨hfail', -⟩ := (other.parse_ok_iff limit' w).1 hw
    obtain ⟨-, hbody⟩ := (source.parse_ok_iff limit v).1 h
    rw [hsame] at hbody
    exact parse_unique ((other.parse_ok_iff limit v).2 ⟨hfail', hbody⟩) hw

/-- A list as a key that comes twice, an escape, a comment and a guarded string: the second document
spells it all differently and still has the same tree, the third one has another form for an atom. -/
theorem parse_lossless_respelt :
    let v : Datum := .map (.list [.atom ⟨"a", .bare⟩]) (.atom ⟨"A", .quoted⟩)
      [(.list [.atom ⟨"a", .bare⟩], .atom ⟨"b", .guarded⟩)]
    let source : Source := .text "(a): \"\\x41\" # first\n(a):#\"b\"#"
    let respelt : Source := .text "( a ) :\"A\"( a ) : #\"b\"#"
    let quoted : Source := .text "(a): \"A\" (a): \"b\""
    (source.parse 1).result = .ok v ∧
      (MiniLisp.lex v.serializeDocument).failure = none ∧
      (MiniLisp.lex v.serializeDocument).lexemes = source.lex.significant ∧
      source.lex.significant = respelt.lex.significant ∧
      source.lex.significant ≠ quoted.lex.significant := by
  intro v source respelt quoted
  have hv : (source.parse 1).result = .ok v := by cbv
  have hrespelt : (respelt.parse 3).result = .ok v := by cbv
  have hquoted : (quoted.parse 2).result = .ok (.map (.list [.atom ⟨"a", .bare⟩])
      (.atom ⟨"A", .quoted⟩) [(.list [.atom ⟨"a", .bare⟩], .atom ⟨"b", .quoted⟩)]) := by cbv
  obtain ⟨hfail, hlexemes, hsame⟩ := parse_lossless hv
  refine ⟨hv, hfail, hlexemes, (hsame respelt 3 v hrespelt).1 rfl, ?_⟩
  intro heq
  have := (hsame quoted 2 _ hquoted).2 heq
  simp [v] at this

end Source

end MiniLisp
