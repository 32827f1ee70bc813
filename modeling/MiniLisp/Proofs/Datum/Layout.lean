import MiniLisp.Datum.Layout
import MiniLisp.Proofs.Datum.RoundTrip

/-!
# Layout keeps the lexemes

Over several lines a datum has the lexemes that it has on one line: a line feed and indentation
stand where a space was, or where nothing was. Whatever the options, `Datum.layout` renders
`Datum.lexemes` (`Datum.writes_layout`), and `Datum.pretty` what the flat text of the same mode
renders (`Datum.writes_pretty`).
-/

namespace MiniLisp

open CodePoint (ofChar)

/-- Indentation is white space. -/
theorem LayoutOptions.writes_pad {xs : List Lexeme} {t : Text} (o : LayoutOptions) (level : Nat)
    (h : Writes xs t) : Writes xs (o.pad level ++ t) := by
  refine h.blanks fun c hc => ?_
  rw [(List.mem_replicate.1 hc).2]
  rfl

/-- Lines write what each of them writes. -/
theorem Text.writes_lines {xss : List (List Lexeme)} {ls : List Text}
    (h : List.Forall₂ Writes xss ls) : Writes xss.flatten (Text.lines ls) :=
  Writes.join (by decide) (by decide) h

/-- A block writes its lines between two parentheses. -/
theorem Text.writes_block (o : LayoutOptions) (level : Nat) {xss : List (List Lexeme)}
    {parts : List Text} (h : List.Forall₂ Writes xss parts) :
    Writes (.lparen :: (xss.flatten ++ [.rparen])) (Text.block o level parts) := by
  have hopen : Writes [.lparen] (Text.ofString "(") := .lexeme .lparen (by decide)
  have hclose : Writes [.rparen] (o.pad level ++ Text.ofString ")") :=
    o.writes_pad level (.lexeme .rparen (by decide))
  have hlines : List.Forall₂ Writes ([.lparen] :: (xss ++ [[.rparen]]))
      (Text.ofString "(" :: (parts ++ [o.pad level ++ Text.ofString ")"])) :=
    .cons hopen (List.rel_append h (.cons hclose .nil))
  have := Text.writes_lines hlines
  simpa [Text.block] using this

namespace Datum

theorem layoutItems_eq (o : LayoutOptions) (level : Nat) (items : List Datum) :
    layoutItems o level items = items.map fun v => o.pad level ++ layout o level v := by
  induction items with
  | nil => rw [layoutItems, List.map_nil]
  | cons v items ih => rw [layoutItems, ih, List.map_cons]

theorem layoutEntries_eq (o : LayoutOptions) (level : Nat) (es : List (Datum × Datum)) :
    layoutEntries o level es =
      es.map fun e => Text.entry (o.pad level ++ serialize e.1) (layout o level e.2) := by
  induction es with
  | nil => rw [layoutEntries, List.map_nil]
  | cons e es ih => rw [layoutEntries, ih, List.map_cons]

theorem writes_layoutItems {o : LayoutOptions} {level : Nat} {items : List Datum}
    (h : ∀ v ∈ items, Writes (lexemes v) (layout o level v)) :
    List.Forall₂ Writes (items.map lexemes) (layoutItems o level items) := by
  rw [layoutItems_eq, List.forall₂_map_left_iff, List.forall₂_map_right_iff, List.forall₂_same]
  exact fun v hv => o.writes_pad level (h v hv)

theorem writes_layoutEntries {o : LayoutOptions} {level : Nat} {es : List (Datum × Datum)}
    (h : ∀ e ∈ es, Writes (lexemes e.2) (layout o level e.2)) :
    List.Forall₂ Writes (es.map entryLexemes) (layoutEntries o level es) := by
  rw [layoutEntries_eq, List.forall₂_map_left_iff, List.forall₂_map_right_iff, List.forall₂_same]
  exact fun e he => writes_entry (o.writes_pad level (writes_serialize e.1)) (h e he)

/-- **Over several lines a datum writes its lexemes**, at every level. -/
theorem writes_layout (o : LayoutOptions) (v : Datum) :
    ∀ level, Writes (lexemes v) (layout o level v) := by
  induction v using Tree.induct with
  | atom a =>
    intro level
    rw [layout]
    exact writes_serialize (.atom a)
  | list items ih =>
    intro level
    rw [layout]
    split
    · exact writes_serialize _
    · -- too long for its line: one line for each item, a level further in
      rw [lexemes_list, documentLexemes, List.flatMap_def]
      exact Text.writes_block o level (writes_layoutItems fun v hv => ih v hv (level + 1))
  | map key value rest hk hv ih =>
    intro level
    rw [layout]
    split
    · exact writes_serialize _
    · -- keys stay on one line, values may go over several
      have hentries : List.Forall₂ Writes (((key, value) :: rest).map entryLexemes)
          (layoutEntries o (level + 1) ((key, value) :: rest)) := by
        refine writes_layoutEntries fun e he => ?_
        rcases List.mem_cons.1 he with rfl | he
        · exact hv (level + 1)
        · exact (ih e he).2 (level + 1)
      rw [layoutEntries] at hentries
      rw [lexemes_map, documentLexemes, List.flatMap_def]
      exact Text.writes_block o level hentries
  | leaf a => exact a.elim

/-- The same in either mode, as for the text on one line. -/
theorem writes_pretty (o : LayoutOptions) (document : Bool) (v : Datum) :
    Writes (if document then documentLexemes v else lexemes v) (pretty o document v) := by
  cases document with
  | false => exact writes_layout o v 0
  | true =>
    cases v with
    | atom a => exact writes_document (.atom a)
    | list items =>
      simp only [pretty, if_true]
      split
      · exact writes_document _
      · rw [documentLexemes, List.flatMap_def]
        exact Text.writes_lines (writes_layoutItems fun w _ => writes_layout o w 0)
    | map key value rest =>
      simp only [pretty, if_true]
      split
      · exact writes_document _
      · rw [documentLexemes, List.flatMap_def]
        exact Text.writes_lines (writes_layoutEntries fun e _ => writes_layout o e.2 0)
    | leaf a => exact a.elim

/-- A datum on one line in the given mode. -/
theorem writes_flat (document : Bool) (v : Datum) :
    Writes (if document then documentLexemes v else lexemes v)
      (if document then serializeDocument v else serialize v) := by
  cases document with
  | false => exact writes_serialize v
  | true => exact writes_document v

/-- **Layout only changes layout.** Whatever the indentation and the width, and in either mode, the
text over several lines has the lexemes of the text on one line, in the same order; so a list or map
within the limit reads as the same tree from both. -/
theorem lex_pretty (v : Datum) (o : LayoutOptions) (document : Bool) :
    (lex (v.pretty o document)).failure = none ∧
    (lex (if document then v.serializeDocument else v.serialize)).failure = none ∧
    (lex (v.pretty o document)).lexemes =
      (lex (if document then v.serializeDocument else v.serialize)).lexemes ∧
    ((∀ a, v ≠ .atom a) → ∀ d : Nat, v.serializeDocument.nesting ≤ d →
      ∃ w, ((Source.text (v.pretty o true)).parse d).result = .ok w ∧
        ((Source.text v.serializeDocument).parse d).result = .ok w) := by
  obtain ⟨hfail, hlex⟩ := (writes_pretty o document v).renders.lex
  obtain ⟨hfail', hlex'⟩ := (writes_flat document v).renders.lex
  refine ⟨hfail, hfail', hlex.trans hlex'.symm, ?_⟩
  intro hv d hd
  have hflat := (writes_document v).renders
  have hpretty : Renders (documentLexemes v) (v.pretty o true) := (writes_pretty o true v).renders
  have hnest : (v.pretty o true).nesting = v.serializeDocument.nesting := by
    unfold Text.nesting
    rw [Lexed.significant_eq, Lexed.significant_eq, hpretty.lex.2, hflat.lex.2]
  have hd' : (v.pretty o true).nesting ≤ d := by omega
  exact ⟨v.normal, (readsAs_document hv hpretty d).1 hd', (readsAs_document hv hflat d).1 hd⟩

end Datum

end MiniLisp
