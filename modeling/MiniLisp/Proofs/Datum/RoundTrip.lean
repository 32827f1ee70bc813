import Mathlib.Data.List.Infix
import MiniLisp.Datum.Written
import MiniLisp.Proofs.Document.Acceptance
import MiniLisp.Proofs.Token.Rendering

/-!
# Data come back from their writing

A datum has a sequence of lexemes, `Datum.lexemes`, and in between its writing and its reading there
is nothing else: its writing on one line renders these lexemes (`Datum.writes_serialize`), and the
grammar derives the datum from them (`Datum.derived_lexemes`), with as many nested parentheses as
the datum has nested lists and maps (`Datum.nesting_lexemes`).

What comes back is `Datum.normal`: an atom that its form cannot carry is written, and so read, as a
quoted string.
-/

namespace MiniLisp

open CodePoint (ofChar)

/-- The form in which an atom is written: its own if that can carry the text, quoted otherwise. -/
def Atom.normalForm (a : Atom) : Form :=
  match a.form with
  | .bare => if a.text.isBareWord then .bare else .quoted
  | .quoted => .quoted
  | .guarded => if [ofChar '"', ofChar '#'] <:+: a.text then .quoted else .guarded

/-- The atom in the form in which it is written. -/
def Atom.normal (a : Atom) : Atom := ⟨a.text, a.normalForm⟩

/-- The kind of the token that an atom of this form is. -/
def Form.kind : Form → TokenKind
  | .bare => .bare
  | .quoted => .quoted
  | .guarded => .guarded

theorem Form.form?_kind (f : Form) : f.kind.form? = some f := by cases f <;> rfl

theorem Form.kind_ne_comment (f : Form) : f.kind ≠ .comment := by cases f <;> simp [Form.kind]

/-- The lexeme of an atom in writing. -/
def Atom.lexeme (a : Atom) : Lexeme := ⟨a.normalForm.kind, a.text⟩

/-- **An atom is written as its lexeme**, in one of the three spellings. -/
theorem Atom.spells_serialize (a : Atom) : Spells a.lexeme a.serialize := by
  obtain ⟨text, form⟩ := a
  have hquoted : Spells ⟨.quoted, text⟩ text.inQuotes := .quoted (quotes_escape text)
  cases form with
  | bare =>
    by_cases h : text.isBareWord = true
    · simpa [Atom.lexeme, Atom.normalForm, Atom.serialize, Atom.isFaithful, Form.kind, h] using
        Spells.bare h
    · simpa [Atom.lexeme, Atom.normalForm, Atom.serialize, Atom.isFaithful, Form.kind, h] using
        hquoted
  | quoted => exact hquoted
  | guarded =>
    by_cases h : [ofChar '"', ofChar '#'] <:+: text
    · have hend : guardEnd? text ≠ none := fun hn => guardEnd?_none_iff.1 hn h
      simpa [Atom.lexeme, Atom.normalForm, Atom.serialize, Atom.isFaithful, Form.kind, h, hend]
        using hquoted
    · have hend : guardEnd? text = none := guardEnd?_none_iff.2 h
      simpa [Atom.lexeme, Atom.normalForm, Atom.serialize, Atom.isFaithful, Form.kind, h, hend]
        using Spells.guarded h

/-- How deep lists and maps nest in a tree, keys included. -/
def Tree.nesting {α : Type} : Tree α → Nat :=
  fold {
    atom := fun _ => 0
    list := fun items => items.foldr max 0 + 1
    map := fun key value rest =>
      max (max key value) (rest.foldr (fun e n => max (max e.1 e.2) n) 0) + 1
    leaf := fun _ => 0 }

namespace Datum

/-- The datum with its atoms in the forms in which they are written. -/
def normal : Datum → Datum :=
  Tree.fold { atom := fun a => .atom a.normal, list := .list, map := .map, leaf := .leaf }

/-- The lexemes of a datum. -/
def lexemes : Datum → List Lexeme :=
  Tree.fold {
    atom := fun a => [a.lexeme]
    list := fun items => .lparen :: (items.flatten ++ [.rparen])
    map := fun key value rest =>
      .lparen :: ((((key, value) :: rest).flatMap fun e => e.1 ++ .colon :: e.2) ++ [.rparen])
    leaf := Empty.elim }

/-- The lexemes of an entry. -/
def entryLexemes (e : Datum × Datum) : List Lexeme := lexemes e.1 ++ .colon :: lexemes e.2

/-- The lexemes of a datum as a whole document. -/
def documentLexemes : Datum → List Lexeme
  | .atom a => [a.lexeme]
  | .list items => items.flatMap lexemes
  | .map key value rest => ((key, value) :: rest).flatMap entryLexemes
  | .leaf a => a.elim

/-- An entry in the forms in which it is written. -/
def normalEntry (e : Datum × Datum) : Datum × Datum := (normal e.1, normal e.2)

/-- How deep the two sides of an entry nest. -/
def entryNesting (e : Datum × Datum) : Nat := max e.1.nesting e.2.nesting

theorem lexemes_atom (a : Atom) : lexemes (.atom a) = [a.lexeme] := rfl

theorem lexemes_list (items : List Datum) :
    lexemes (.list items) = .lparen :: (documentLexemes (.list items) ++ [.rparen]) := by
  simp only [lexemes, Tree.fold_list, documentLexemes, List.flatMap_def]

theorem lexemes_map (key value : Datum) (rest : List (Datum × Datum)) :
    lexemes (.map key value rest) =
      .lparen :: (documentLexemes (.map key value rest) ++ [.rparen]) := by
  simp only [lexemes, Tree.fold_map, documentLexemes, List.flatMap_def, List.map_cons, List.map_map]
  rfl

theorem normal_list (items : List Datum) : normal (.list items) = .list (items.map normal) := by
  simp only [normal, Tree.fold_list]

theorem normal_map (key value : Datum) (rest : List (Datum × Datum)) :
    normal (.map key value rest) = .map (normal key) (normal value) (rest.map normalEntry) := by
  simp only [normal, Tree.fold_map]
  rfl

theorem nesting_list (items : List Datum) :
    Tree.nesting (.list items) = (items.map Tree.nesting).foldr max 0 + 1 := by
  simp only [Tree.nesting, Tree.fold_list]

theorem nesting_map (key value : Datum) (rest : List (Datum × Datum)) :
    Tree.nesting (.map key value rest) =
      (((key, value) :: rest).map entryNesting).foldr max 0 + 1 := by
  simp only [Tree.nesting, Tree.fold_map, List.map_cons, List.foldr_cons, List.foldr_map]
  rfl

/-! ## Writing -/

theorem writes_parens {xs : List Lexeme} {t : Text} (h : Writes xs t) :
    Writes (.lparen :: (xs ++ [.rparen])) t.inParens := by
  intro ys s hs hr
  have hclose := h _ _ (Text.detached_cons rfl) (Renders.lexeme .rparen trivial hr)
  have hopen := Renders.lexeme .lparen trivial hclose
  simpa [Text.inParens, Text.ofString] using hopen

theorem writes_entry {xs ys : List Lexeme} {s t : Text} (h : Writes xs s) (h' : Writes ys t) :
    Writes (xs ++ .colon :: ys) (Text.entry s t) := by
  have hcolon : Writes (.colon :: ys) (ofChar ':' :: ofChar ' ' :: t) :=
    (Writes.lexeme .colon (by decide)).append (h'.blank rfl) (Text.detached_cons rfl)
  have := h.append hcolon (Text.detached_cons rfl)
  simpa [Text.entry, Text.ofString] using this

/-- Parts with a space between neighbours write what the parts write. -/
theorem writes_spaced {β : Type} {f : β → List Lexeme} {g : β → Text} {bs : List β}
    (h : ∀ b ∈ bs, Writes (f b) (g b)) : Writes (bs.flatMap f) (Text.join " " (bs.map g)) := by
  have hparts : List.Forall₂ Writes (bs.map f) (bs.map g) := by
    rw [List.forall₂_map_left_iff, List.forall₂_map_right_iff, List.forall₂_same]
    exact h
  rw [List.flatMap_def]
  exact Writes.join (by decide) (by decide) hparts

/-- **A datum on one line renders its lexemes.** -/
theorem writes_serialize (v : Datum) : Writes (lexemes v) (serialize v) := by
  induction v using Tree.induct with
  | atom a =>
    rw [lexemes_atom, serialize_atom]
    exact .lexeme a.spells_serialize a.normalForm.kind_ne_comment
  | list items ih =>
    rw [lexemes_list, serialize_list]
    exact writes_parens (writes_spaced ih)
  | map key value rest hk hv ih =>
    rw [lexemes_map, serialize_map]
    refine writes_parens (writes_spaced ?_)
    intro e he
    rcases List.mem_cons.1 he with rfl | he
    · exact writes_entry hk hv
    · exact writes_entry (ih e he).1 (ih e he).2
  | leaf a => exact a.elim

theorem writes_document (v : Datum) : Writes (documentLexemes v) (serializeDocument v) := by
  cases v with
  | atom a => exact writes_serialize (.atom a)
  | list items => exact writes_spaced fun v _ => writes_serialize v
  | map key value rest =>
    exact writes_spaced fun e _ => writes_entry (writes_serialize e.1) (writes_serialize e.2)
  | leaf a => exact a.elim

/-! ## Reading -/

theorem derived_items {d : Nat} {items : List Datum}
    (h : ∀ v ∈ items, ∀ d, v.nesting ≤ d → Grammar.Item d (lexemes v) (normal v))
    (hd : (items.map Tree.nesting).foldr max 0 ≤ d) :
    Grammar.Items d (items.flatMap lexemes) (items.map normal) := by
  induction items with
  | nil => exact .nil
  | cons v items ih =>
    rw [List.map_cons, List.foldr_cons] at hd
    have hv := h v List.mem_cons_self d (by omega)
    have hrest := ih (fun w hw => h w (List.mem_cons_of_mem _ hw)) (by omega)
    exact .cons hv hrest

theorem derived_entries {d : Nat} {es : List (Datum × Datum)}
    (h : ∀ e ∈ es, (∀ d, e.1.nesting ≤ d → Grammar.Item d (lexemes e.1) (normal e.1)) ∧
      ∀ d, e.2.nesting ≤ d → Grammar.Item d (lexemes e.2) (normal e.2))
    (hd : (es.map entryNesting).foldr max 0 ≤ d) :
    Grammar.Entries d (es.flatMap entryLexemes) (es.map normalEntry) := by
  induction es with
  | nil => exact .nil
  | cons e es ih =>
    rw [List.map_cons, List.foldr_cons, entryNesting] at hd
    obtain ⟨hk, hv⟩ := h e List.mem_cons_self
    have hrest := ih (fun e' he' => h e' (List.mem_cons_of_mem _ he')) (by omega)
    have := Grammar.Entries.cons (hk d (by omega)) (rfl : Lexeme.colon.kind = .colon)
      (hv d (by omega)) hrest
    simpa [entryLexemes, normalEntry] using this

/-- **The lexemes of a datum are an item that reads as the datum.** -/
theorem derived_lexemes (v : Datum) :
    ∀ d, v.nesting ≤ d → Grammar.Item d (lexemes v) (normal v) := by
  induction v using Tree.induct with
  | atom a =>
    intro d _
    exact .atom a.normalForm.form?_kind
  | list items ih =>
    intro d hd
    -- the parentheses take one level, the items have the rest
    rw [nesting_list] at hd
    obtain ⟨d, rfl⟩ : ∃ d', d = d' + 1 := ⟨d - 1, by omega⟩
    rw [lexemes_list, normal_list]
    exact .parens rfl rfl (.list (derived_items ih (by omega)))
  | map key value rest hk hv ih =>
    intro d hd
    rw [nesting_map] at hd
    obtain ⟨d, rfl⟩ : ∃ d', d = d' + 1 := ⟨d - 1, by omega⟩
    have hentries : Grammar.Entries d (((key, value) :: rest).flatMap entryLexemes)
        (((key, value) :: rest).map normalEntry) := by
      refine derived_entries ?_ (by omega)
      intro e he
      rcases List.mem_cons.1 he with rfl | he
      · exact ⟨hk, hv⟩
      · exact ih e he
    rw [lexemes_map, normal_map]
    exact .parens rfl rfl (.map hentries)
  | leaf a => exact a.elim

/-- As a whole document, a list or map needs one parenthesis less. -/
theorem derived_document {v : Datum} (hv : ∀ a, v ≠ .atom a) {d : Nat} (hd : v.nesting ≤ d + 1) :
    Grammar.Body d (documentLexemes v) (normal v) := by
  cases v with
  | atom a => exact absurd rfl (hv a)
  | list items =>
    rw [nesting_list] at hd
    rw [normal_list]
    exact .list (derived_items (fun w _ => derived_lexemes w) (by omega))
  | map key value rest =>
    rw [nesting_map] at hd
    rw [normal_map]
    have hparts (e : Datum × Datum) (_ : e ∈ (key, value) :: rest) :=
      And.intro (derived_lexemes e.1) (derived_lexemes e.2)
    exact .map (derived_entries hparts (by omega))
  | leaf a => exact a.elim

/-! ## Nesting -/

open Lexeme (deepest le_deepest)

theorem deepest_items {items : List Datum}
    (h : ∀ v ∈ items, ∀ n ys, deepest n (lexemes v ++ ys) = max (n + v.nesting) (deepest n ys))
    (n : Nat) (ys : List Lexeme) :
    deepest n (items.flatMap lexemes ++ ys) =
      max (n + (items.map Tree.nesting).foldr max 0) (deepest n ys) := by
  induction items with
  | nil =>
    have := le_deepest n ys
    simp only [List.flatMap_nil, List.nil_append, List.map_nil, List.foldr_nil]
    omega
  | cons v items ih =>
    have hv := h v List.mem_cons_self n (items.flatMap lexemes ++ ys)
    have hrest := ih fun w hw => h w (List.mem_cons_of_mem _ hw)
    simp only [List.flatMap_cons, List.append_assoc, List.map_cons, List.foldr_cons]
    omega

theorem deepest_entries {es : List (Datum × Datum)}
    (h : ∀ e ∈ es, (∀ n ys, deepest n (lexemes e.1 ++ ys) = max (n + e.1.nesting) (deepest n ys)) ∧
      ∀ n ys, deepest n (lexemes e.2 ++ ys) = max (n + e.2.nesting) (deepest n ys))
    (n : Nat) (ys : List Lexeme) :
    deepest n (es.flatMap entryLexemes ++ ys) =
      max (n + (es.map entryNesting).foldr max 0) (deepest n ys) := by
  induction es with
  | nil =>
    have := le_deepest n ys
    simp only [List.flatMap_nil, List.nil_append, List.map_nil, List.foldr_nil]
    omega
  | cons e es ih =>
    obtain ⟨hk, hv⟩ := h e List.mem_cons_self
    have hrest := ih fun e' he' => h e' (List.mem_cons_of_mem _ he')
    have hcolon : Lexeme.openAfter n .colon = n := rfl
    have hle := le_deepest n ys
    -- key, colon, value and the other entries each start where `n` parentheses are open
    simp only [List.flatMap_cons, List.append_assoc, List.map_cons, List.foldr_cons, entryLexemes,
      entryNesting, List.cons_append, hk, hv, hrest, deepest, hcolon]
    generalize deepest n ys = m at hle ⊢
    omega

/-- A pair of parentheses is one more around what nests `k` deep between them. -/
theorem deepest_parens {n k : Nat} {xs ys : List Lexeme}
    (h : deepest (n + 1) (xs ++ .rparen :: ys) =
      max (n + 1 + k) (deepest (n + 1) (.rparen :: ys))) :
    deepest n (.lparen :: (xs ++ [.rparen]) ++ ys) = max (n + (k + 1)) (deepest n ys) := by
  have hopen : Lexeme.openAfter n .lparen = n + 1 := rfl
  have hclose : Lexeme.openAfter (n + 1) .rparen = n := rfl
  have hle := le_deepest n ys
  simp only [List.cons_append, List.append_assoc, List.nil_append, deepest, hopen, h, hclose]
  generalize deepest n ys = m at hle ⊢
  omega

/-- The parentheses of a datum nest as deep as its lists and maps do. -/
theorem deepest_lexemes (v : Datum) : ∀ n ys,
    deepest n (lexemes v ++ ys) = max (n + v.nesting) (deepest n ys) := by
  induction v using Tree.induct with
  | atom a =>
    intro n ys
    have := le_deepest n ys
    have hopen : Lexeme.openAfter n a.lexeme = n := Lexeme.openAfter_atom a.normalForm.form?_kind n
    have hnest : (Tree.atom a : Datum).nesting = 0 := rfl
    simp only [lexemes_atom, List.cons_append, List.nil_append, deepest, hopen, hnest]
    omega
  | list items ih =>
    intro n ys
    rw [lexemes_list, nesting_list]
    exact deepest_parens (deepest_items ih (n + 1) _)
  | map key value rest hk hv ih =>
    intro n ys
    rw [lexemes_map, nesting_map]
    refine deepest_parens (deepest_entries ?_ (n + 1) _)
    intro e he
    rcases List.mem_cons.1 he with rfl | he
    · exact ⟨hk, hv⟩
    · exact ih e he
  | leaf a => exact a.elim

theorem nesting_lexemes (v : Datum) : Lexeme.nesting (lexemes v) = v.nesting := by
  have := deepest_lexemes v 0 []
  simpa [Lexeme.nesting, deepest] using this

theorem nesting_document {v : Datum} (hv : ∀ a, v ≠ .atom a) :
    Lexeme.nesting (documentLexemes v) + 1 = v.nesting := by
  cases v with
  | atom a => exact absurd rfl (hv a)
  | list items =>
    have := deepest_items (fun w (_ : w ∈ items) => deepest_lexemes w) 0 []
    simp only [List.append_nil, deepest] at this
    rw [nesting_list, Lexeme.nesting, documentLexemes, this]
    omega
  | map key value rest =>
    have hparts (e : Datum × Datum) (_ : e ∈ (key, value) :: rest) :=
      And.intro (deepest_lexemes e.1) (deepest_lexemes e.2)
    have := deepest_entries hparts 0 []
    simp only [List.append_nil, deepest] at this
    rw [nesting_map, Lexeme.nesting, documentLexemes, this]
    omega
  | leaf a => exact a.elim

end Datum

/-! ## The round trip -/

/-- How deep the parentheses of a text nest. -/
def Text.nesting (t : Text) : Nat := Lexeme.nesting (lex t).significant

/-- The text reads as `v` under every limit that its nesting keeps to, and is refused as too deep
under every other. -/
def Text.ReadsAs (t : Text) (v : Datum) : Prop :=
  ∀ d : Nat, (t.nesting ≤ d → ((Source.text t).parse d).result = .ok v) ∧
    (d < t.nesting → ∃ p, ((Source.text t).parse d).result = .error ⟨.tooDeep d, p⟩)

/-- What a text says, if it renders lexemes without comments. -/
theorem Renders.significant {xs : List Lexeme} {t : Text} (h : Renders xs t)
    (hxs : ∀ x ∈ xs, x.kind ≠ .comment) : (MiniLisp.lex t).significant = xs := by
  rw [Lexed.significant_eq, h.lex.2, List.filter_eq_self]
  intro x hx
  exact decide_eq_true (hxs x hx)

theorem Renders.readsAs {xs : List Lexeme} {t : Text} {v : Datum} (ht : Renders xs t)
    (h : ∀ d, Lexeme.nesting xs ≤ d → Grammar.Body d xs v) : t.ReadsAs v := by
  have hbody := h _ (Nat.le_refl _)
  have hsig : (Source.text t).lex.significant = xs := ht.significant hbody.ne_comment
  have hnest : t.nesting = Lexeme.nesting xs := congrArg Lexeme.nesting hsig
  intro d
  constructor
  · intro hd
    rw [Source.parse_ok_iff, hsig, Int.toNat_natCast]
    exact ⟨ht.lex.1, h d (hnest ▸ hd)⟩
  · intro hd
    refine Source.parse_tooDeep ht.lex.1 (hsig ▸ hbody) ?_
    rwa [hsig, ← hnest]

namespace Datum

/-- Any text of the lexemes of a document reads as the document. -/
theorem readsAs_document {v : Datum} (hv : ∀ a, v ≠ .atom a) {t : Text}
    (ht : Renders (documentLexemes v) t) : t.ReadsAs (normal v) := by
  refine ht.readsAs fun d hd => ?_
  -- a document has no parentheses of its own
  have := nesting_document hv
  exact derived_document hv (by omega)

/-- **Exact round trip.** A datum between its parentheses reads as a document with that one item,
and a list or map written as a document reads as itself, atoms in the forms in which they are
written. Only a limit below the nesting of the text stands in the way. -/
theorem readsAs_serialize (v : Datum) :
    v.serialize.ReadsAs (.list [v.normal]) ∧
      ((∀ a, v ≠ .atom a) → v.serializeDocument.ReadsAs v.normal) := by
  constructor
  · refine (writes_serialize v).renders.readsAs fun d hd => ?_
    rw [nesting_lexemes] at hd
    exact .list (.single (derived_lexemes v d hd))
  · intro hv
    exact readsAs_document hv (writes_document v).renders

end Datum

end MiniLisp
