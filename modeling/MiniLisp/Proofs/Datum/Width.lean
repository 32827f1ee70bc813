import MiniLisp.Proofs.Datum.Layout

/-!
# Lines keep to the width where they can be broken

A datum over several lines may still have long lines: an atom is never broken, a key is not, and a
lone parenthesis has to go somewhere. **Every other line fits** (`Datum.pretty_lines`): behind the
indentation, and behind a key if there is one, stands a list or map on one line, and only where the
line would be short enough without the key.

* `Datum.Core o root k t`: what the text `t` that begins `k` columns in can be. `Datum.Line` adds
  the indentation and the key.
* `Datum.Laid o root level t`: what is laid out at a level goes on from where its indentation ends,
  so its first line is a core, and only the others are whole lines. `Laid.lines`, `Laid.entryLines`:
  with the indentation, or a key, in front of it all its lines are whole.
-/

namespace MiniLisp

open CodePoint (ofChar)

/-! ## Lines of a text -/

namespace Text

/-- The lines of a text, without the line feeds between them. -/
def splitLines (t : Text) : List Text := t.splitOn (ofChar '\n')

theorem splitLines_of_notMem {t : Text} (h : ofChar '\n' ∉ t) : t.splitLines = [t] :=
  List.splitOn_eq_singleton h

/-- Texts put on lines of their own keep the lines that they have. -/
theorem splitLines_lines (t : Text) (ts : List Text) :
    (lines (t :: ts)).splitLines = (t :: ts).flatMap splitLines := by
  induction ts generalizing t with
  | nil =>
    rw [List.flatMap_singleton]
    simp [lines, join]
  | cons u ts ih =>
    have hcons : lines (t :: u :: ts) = t ++ ofChar '\n' :: lines (u :: ts) := by
      unfold lines join
      rw [List.intercalate_cons_cons, List.append_assoc]
      rfl
    rw [hcons, List.flatMap_cons, ← ih]
    unfold splitLines
    exact List.splitOn_append_cons_self t (lines (u :: ts))

theorem forall_mem_splitLines_lines {P : Text → Prop} {ts : List Text} (hne : ts ≠ [])
    (h : ∀ t ∈ ts, ∀ line ∈ t.splitLines, P line) : ∀ line ∈ (lines ts).splitLines, P line := by
  obtain ⟨t, ts, rfl⟩ := List.exists_cons_of_ne_nil hne
  rw [splitLines_lines]
  intro line hline
  obtain ⟨u, hu, hline⟩ := List.mem_flatMap.1 hline
  exact h u hu line hline

/-- What is put in front of a text goes to its first line. -/
theorem splitLines_append {u t first : Text} {rest : List Text} (hu : ofChar '\n' ∉ u)
    (ht : t.splitLines = first :: rest) : (u ++ t).splitLines = (u ++ first) :: rest := by
  induction u with
  | nil => exact ht
  | cons c u ih =>
    obtain ⟨hc, hu⟩ := not_or.1 (List.mem_cons.not.1 hu)
    have hne : ¬ (c == ofChar '\n') = true := fun h => hc (beq_iff_eq.1 h).symm
    have ih := ih hu
    unfold splitLines at ih ⊢
    rw [List.cons_append, List.splitOn_cons_eq_if_modifyHead, if_neg hne, ih]
    rfl

theorem notMem_join {c : CodePoint} {sep : Text} {pieces : List Text} (hsep : c ∉ sep)
    (h : ∀ piece ∈ pieces, c ∉ piece) : c ∉ join sep pieces := by
  unfold join
  induction pieces with
  | nil => exact List.not_mem_nil
  | cons piece pieces ih =>
    obtain ⟨hpiece, hrest⟩ := List.forall_mem_cons.1 h
    cases pieces with
    | nil => simpa using hpiece
    | cons next pieces =>
      rw [List.intercalate_cons_cons, List.mem_append, List.mem_append]
      exact not_or.2 ⟨not_or.2 ⟨hpiece, hsep⟩, ih hrest⟩

theorem notMem_entry {key value : Text} (hkey : ofChar '\n' ∉ key) (hvalue : ofChar '\n' ∉ value) :
    ofChar '\n' ∉ entry key value := by
  have hcolon : ofChar '\n' ∉ Text.ofString ": " := by decide
  unfold entry
  rw [List.mem_append, List.mem_append]
  exact not_or.2 ⟨not_or.2 ⟨hkey, hcolon⟩, hvalue⟩

theorem notMem_spaces (count : Int) : ofChar '\n' ∉ spaces count := by
  intro h
  exact absurd (List.eq_of_mem_replicate h) (by decide)

end Text

/-! ## Parts of a tree -/

/-- A tree occurs in another if it is that tree, or occurs in one of its items, keys or values. -/
inductive Tree.Part {α : Type} (w : Tree α) : Tree α → Prop
  | self : Part w w
  | item {t : Tree α} {ts : List (Tree α)} : t ∈ ts → Part w t → Part w (.list ts)
  | key {k v : Tree α} {rest : List (Tree α × Tree α)} {e : Tree α × Tree α} :
      e ∈ (k, v) :: rest → Part w e.1 → Part w (.map k v rest)
  | value {k v : Tree α} {rest : List (Tree α × Tree α)} {e : Tree α × Tree α} :
      e ∈ (k, v) :: rest → Part w e.2 → Part w (.map k v rest)

namespace Tree.Part

variable {α : Type} {u w t root : Tree α} {ts : List (Tree α)}

theorem trans (h : Part u w) (h' : Part w t) : Part u t := by
  induction h' with
  | self => exact h
  | item ht _ ih => exact .item ht ih
  | key he _ ih => exact .key he ih
  | value he _ ih => exact .value he ih

theorem of_item (h : Part (.list ts) root) (ht : t ∈ ts) : Part t root :=
  trans (.item ht .self) h

theorem of_key {k v : Tree α} {rest : List (Tree α × Tree α)} {e : Tree α × Tree α}
    (h : Part (.map k v rest) root) (he : e ∈ (k, v) :: rest) : Part e.1 root :=
  trans (.key he .self) h

theorem of_value {k v : Tree α} {rest : List (Tree α × Tree α)} {e : Tree α × Tree α}
    (h : Part (.map k v rest) root) (he : e ∈ (k, v) :: rest) : Part e.2 root :=
  trans (.value he .self) h

/-! The atoms of each kind of tree. -/

theorem atom_iff {a b : Atom} : Part (.atom a : Tree α) (.atom b) ↔ a = b := by
  constructor
  · intro h
    cases h
    rfl
  · rintro rfl
    exact .self

theorem atom_list_iff {a : Atom} :
    Part (.atom a) (.list ts) ↔ ∃ t ∈ ts, Part (.atom a : Tree α) t := by
  constructor
  · intro h
    cases h with
    | item ht h => exact ⟨_, ht, h⟩
  · rintro ⟨t, ht, h⟩
    exact .item ht h

theorem atom_map_iff {a : Atom} {k v : Tree α} {rest : List (Tree α × Tree α)} :
    Part (.atom a) (.map k v rest) ↔
      ∃ e ∈ (k, v) :: rest, Part (.atom a : Tree α) e.1 ∨ Part (.atom a : Tree α) e.2 := by
  constructor
  · intro h
    cases h with
    | key he h => exact ⟨_, he, .inl h⟩
    | value he h => exact ⟨_, he, .inr h⟩
  · rintro ⟨e, he, h | h⟩
    · exact .key he h
    · exact .value he h

end Tree.Part

/-- A number of columns that some level is indented by. -/
def LayoutOptions.IsIndent (o : LayoutOptions) (k : Nat) : Prop :=
  ∃ level : Nat, (k : Int) = level * o.indent

namespace Datum

open MiniLisp.Tree (Part)

/-- What can begin `k` columns in and go on to the end of its line: a parenthesis, an atom, or a
list or map that fits. Atoms, lists and maps are parts of `root`. -/
inductive Core (o : LayoutOptions) (root : Datum) (k : Nat) : Text → Prop
  | opening : Core o root k "("
  | closing : Core o root k ")"
  | atom {a : Atom} : Part (.atom a) root → Core o root k a.serialize
  | container {d : Datum} : Part d root → (∀ a, d ≠ .atom a) →
      (k + d.serialize.length : Int) ≤ o.width → Core o root k d.serialize

/-- What can be on a line: indentation and a core, maybe with a key of some map of `root` between
them. A line of a document may also be all of it without its parentheses, if it fits. -/
inductive Line (o : LayoutOptions) (document : Bool) (root : Datum) : Text → Prop
  | plain {k : Nat} {core : Text} : o.IsIndent k → Core o root k core →
      Line o document root (Text.spaces k ++ core)
  | entry {k : Nat} {m : Datum} {e : Datum × Datum} {core : Text} : o.IsIndent k → Part m root →
      e ∈ m.entries → Core o root k core →
      Line o document root (Text.spaces k ++ e.1.serialize ++ ": " ++ core)
  | document : document = true → (∀ a, root ≠ .atom a) →
      (root.serializeDocument.length : Int) ≤ o.width → Line o document root root.serializeDocument

/-- The lines of a text that goes on from the indentation of its level: a core and whole lines. -/
def Laid (o : LayoutOptions) (document : Bool) (root : Datum) (level : Nat) (t : Text) : Prop :=
  ∃ first rest, t.splitLines = first :: rest ∧ Core o root (level * o.indent).toNat first ∧
    ∀ line ∈ rest, Line o document root line

/-! ## No line feeds -/

section NoFeed

variable {root : Datum} (hatoms : ∀ a, Part (.atom a) root → ofChar '\n' ∉ a.serialize)

include hatoms

theorem notMem_serialize (d : Datum) : Part d root → ofChar '\n' ∉ d.serialize := by
  have hspace : ofChar '\n' ∉ Text.ofString " " := by decide
  have hparens {t : Text} (ht : ofChar '\n' ∉ t) : ofChar '\n' ∉ Text.inParens t := by
    have hopen : ofChar '\n' ∉ Text.ofString "(" := by decide
    have hclose : ofChar '\n' ∉ Text.ofString ")" := by decide
    unfold Text.inParens
    rw [List.mem_append, List.mem_append]
    exact not_or.2 ⟨not_or.2 ⟨hopen, ht⟩, hclose⟩
  induction d using Tree.induct with
  | atom a => exact hatoms a
  | list items ih =>
    intro hpart
    rw [serialize_list]
    refine hparens (Text.notMem_join hspace (List.forall_mem_map.2 fun d hd => ?_))
    exact ih d hd (hpart.of_item hd)
  | map key value rest hkey hvalue ih =>
    intro hpart
    rw [serialize_map]
    refine hparens (Text.notMem_join hspace (List.forall_mem_map.2 fun e he => ?_))
    have hk := hpart.of_key he
    have hv := hpart.of_value he
    rcases List.mem_cons.1 he with rfl | he
    · exact Text.notMem_entry (hkey hk) (hvalue hv)
    · exact Text.notMem_entry ((ih e he).1 hk) ((ih e he).2 hv)
  | leaf a => exact a.elim

theorem notMem_serializeDocument {d : Datum} (hpart : Part d root) :
    ofChar '\n' ∉ d.serializeDocument := by
  have hserialize := notMem_serialize hatoms d hpart
  -- the document stands between the parentheses
  have hinside {t : Text} (h : ofChar '\n' ∉ Text.inParens t) : ofChar '\n' ∉ t := by
    intro hmem
    unfold Text.inParens at h
    rw [List.mem_append, List.mem_append] at h
    exact h (.inl (.inr hmem))
  cases d with
  | atom a => exact hatoms a hpart
  | list items =>
    rw [serialize_list] at hserialize
    exact hinside hserialize
  | map key value rest =>
    rw [serialize_map] at hserialize
    exact hinside hserialize
  | leaf a => exact a.elim

end NoFeed

/-! ## Whole lines -/

section Lines

variable {o : LayoutOptions} {document : Bool} {root : Datum}

theorem notMem_pad (level : Nat) : ofChar '\n' ∉ o.pad level := Text.notMem_spaces _

theorem isIndent_level (hindent : 0 ≤ o.indent) (level : Nat) :
    o.IsIndent (level * o.indent).toNat :=
  ⟨level, Int.toNat_of_nonneg (Int.mul_nonneg (Int.natCast_nonneg level) hindent)⟩

/-- A text without line feeds is laid out if it is a core. -/
theorem Laid.of_core {level : Nat} {t : Text} (ht : ofChar '\n' ∉ t)
    (h : Core o root (level * o.indent).toNat t) : Laid o document root level t :=
  ⟨t, [], Text.splitLines_of_notMem ht, h, fun _ hline => absurd hline List.not_mem_nil⟩

/-- Behind its indentation, what is laid out has whole lines. -/
theorem Laid.lines (hindent : 0 ≤ o.indent) {level : Nat} {t : Text}
    (h : Laid o document root level t) :
    ∀ line ∈ (o.pad level ++ t).splitLines, Line o document root line := by
  obtain ⟨first, rest, ht, hfirst, hrest⟩ := h
  rw [Text.splitLines_append (notMem_pad level) ht]
  exact List.forall_mem_cons.2 ⟨.plain (isIndent_level hindent level) hfirst, hrest⟩

/-- Behind its indentation and a key, what is laid out has whole lines. -/
theorem Laid.entryLines (hindent : 0 ≤ o.indent)
    (hatoms : ∀ a, Part (.atom a) root → ofChar '\n' ∉ a.serialize) {level : Nat} {m : Datum}
    {e : Datum × Datum} (hm : Part m root) (he : e ∈ m.entries) {t : Text}
    (h : Laid o document root level t) :
    ∀ line ∈ (Text.entry (o.pad level ++ serialize e.1) t).splitLines,
      Line o document root line := by
  obtain ⟨first, rest, ht, hfirst, hrest⟩ := h
  have hkey : Part e.1 root := by
    cases m with
    | map key value entries => exact hm.of_key he
    | _ => exact absurd he List.not_mem_nil
  have hfront : ofChar '\n' ∉ o.pad level ++ serialize e.1 ++ Text.ofString ": " := by
    have hcolon : ofChar '\n' ∉ Text.ofString ": " := by decide
    rw [List.mem_append, List.mem_append]
    exact not_or.2 ⟨not_or.2 ⟨notMem_pad level, notMem_serialize hatoms _ hkey⟩, hcolon⟩
  unfold Text.entry
  rw [Text.splitLines_append hfront ht]
  exact List.forall_mem_cons.2 ⟨.entry (isIndent_level hindent level) hm he hfirst, hrest⟩

/-- A block of parts with whole lines is laid out: its parentheses have lines of their own. -/
theorem Laid.block (hindent : 0 ≤ o.indent) (level : Nat) {parts : List Text}
    (h : ∀ part ∈ parts, ∀ line ∈ part.splitLines, Line o document root line) :
    Laid o document root level (Text.block o level parts) := by
  have hopen : Text.splitLines "(" = [Text.ofString "("] := Text.splitLines_of_notMem (by decide)
  have hclose : Laid o document root level ")" := .of_core (by decide) .closing
  refine ⟨"(", parts.flatMap Text.splitLines ++ (o.pad level ++ ")").splitLines, ?_, .opening, ?_⟩
  · unfold Text.block
    rw [List.append_assoc, List.singleton_append, Text.splitLines_lines, List.flatMap_cons, hopen,
      List.flatMap_append, List.flatMap_singleton]
    rfl
  · refine List.forall_mem_append.2 ⟨fun line hline => ?_, hclose.lines hindent⟩
    obtain ⟨part, hpart, hline⟩ := List.mem_flatMap.1 hline
    exact h part hpart line hline

end Lines

/-! ## Layout -/

section Layout

variable {o : LayoutOptions} {document : Bool} {root : Datum} (hindent : 0 ≤ o.indent)
  (hatoms : ∀ a, Part (.atom a) root → ofChar '\n' ∉ a.serialize)

include hindent hatoms

/-- What fits on the line of its level is a core there. -/
theorem laid_serialize {d : Datum} (hpart : Part d root) (hd : ∀ a, d ≠ .atom a) {level : Nat}
    (hfits : o.fits level d.serialize = true) : Laid o document root level d.serialize := by
  unfold LayoutOptions.fits at hfits
  have hwidth : (d.serialize.length : Int) + level * o.indent ≤ o.width := by simpa using hfits
  have hcolumns : (((level * o.indent).toNat : Nat) : Int) = level * o.indent :=
    Int.toNat_of_nonneg (Int.mul_nonneg (Int.natCast_nonneg level) hindent)
  refine .of_core (notMem_serialize hatoms d hpart) (.container hpart hd ?_)
  omega

/-- **A part of a datum is laid out at every level.** -/
theorem laid_layout (d : Datum) :
    ∀ level, Part d root → Laid o document root level (layout o level d) := by
  induction d using Tree.induct with
  | atom a =>
    intro level hpart
    rw [layout]
    exact .of_core (hatoms a hpart) (.atom hpart)
  | list items ih =>
    intro level hpart
    rw [layout]
    split
    · rename_i hfits
      exact laid_serialize hindent hatoms hpart (fun a h => by cases h) hfits
    · rw [layoutItems_eq]
      refine .block hindent level (List.forall_mem_map.2 fun d hd => ?_)
      exact (ih d hd (level + 1) (hpart.of_item hd)).lines hindent
  | map key value rest hkey hvalue ih =>
    intro level hpart
    rw [layout]
    split
    · rename_i hfits
      exact laid_serialize hindent hatoms hpart (fun a h => by cases h) hfits
    · rw [← layoutEntries, layoutEntries_eq]
      refine .block hindent level (List.forall_mem_map.2 fun e he => ?_)
      have hlaid : Laid o document root (level + 1) (layout o (level + 1) e.2) := by
        have hv := hpart.of_value he
        rcases List.mem_cons.1 he with rfl | he
        · exact hvalue (level + 1) hv
        · exact (ih e he).2 (level + 1) hv
      exact hlaid.entryLines hindent hatoms hpart he
  | leaf a => exact a.elim

end Layout

/-- A document that fits is one line. -/
theorem lines_serializeDocument {o : LayoutOptions} {root : Datum}
    (hatoms : ∀ a, Part (.atom a) root → ofChar '\n' ∉ a.serialize) (hroot : ∀ a, root ≠ .atom a)
    (hfits : o.fits 0 root.serializeDocument = true) :
    ∀ line ∈ root.serializeDocument.splitLines, Line o true root line := by
  unfold LayoutOptions.fits at hfits
  have hwidth : (root.serializeDocument.length : Int) ≤ o.width := by simpa using hfits
  rw [Text.splitLines_of_notMem (notMem_serializeDocument hatoms .self)]
  exact List.forall_mem_singleton.2 (.document rfl hroot hwidth)

/-- **Lines keep to the width except where nothing can be broken.** Lay out a datum whose atoms are
written without line feeds, with an indentation that is not negative. Every line of the text is
indentation by some level, maybe a key on one line with its colon, and then a parenthesis, an atom,
or a list or map on one line that fits behind the indentation; a document that fits may be one line
without its parentheses. Only the empty document has no line: its text is empty. -/
theorem pretty_lines (v : Datum) (o : LayoutOptions) (document : Bool) (hindent : 0 ≤ o.indent)
    (hatoms : ∀ a, Part (.atom a) v → ofChar '\n' ∉ a.serialize) :
    (document = true ∧ v = .list [] → v.pretty o document = []) ∧
      (¬ (document = true ∧ v = .list []) →
        ∀ line ∈ (v.pretty o document).splitLines, Line o document v line) := by
  have hzero : o.pad 0 = [] := by
    show Text.spaces (0 * o.indent) = []
    rw [Int.zero_mul]
    rfl
  constructor
  · rintro ⟨rfl, rfl⟩
    simp only [pretty, if_true]
    split <;> rfl
  intro hempty
  cases document with
  | false =>
    have hlaid : Laid o false v 0 (layout o 0 v) := laid_layout hindent hatoms v 0 .self
    have hlines := hlaid.lines hindent
    rwa [hzero, List.nil_append] at hlines
  | true =>
    cases v with
    | atom a =>
      have hlaid : Laid o true (.atom a) 0 (layout o 0 (.atom a)) :=
        laid_layout hindent hatoms _ 0 .self
      have hlines := hlaid.lines hindent
      rw [hzero, List.nil_append, layout] at hlines
      exact hlines
    | list items =>
      simp only [pretty, if_true]
      split
      · rename_i hfits
        exact lines_serializeDocument hatoms (fun a h => by cases h) hfits
      · -- one line or more for each item, and there is one
        have hne : items ≠ [] := fun h => hempty ⟨rfl, congrArg _ h⟩
        rw [layoutItems_eq]
        refine Text.forall_mem_splitLines_lines (mt List.map_eq_nil_iff.1 hne) ?_
        refine List.forall_mem_map.2 fun d hd => ?_
        exact (laid_layout hindent hatoms d 0 (Part.self.of_item hd)).lines hindent
    | map key value rest =>
      simp only [pretty, if_true]
      split
      · rename_i hfits
        exact lines_serializeDocument hatoms (fun a h => by cases h) hfits
      · rw [layoutEntries_eq]
        refine Text.forall_mem_splitLines_lines (List.cons_ne_nil _ _) ?_
        refine List.forall_mem_map.2 fun e he => ?_
        have hlaid : Laid o true (.map key value rest) 0 (layout o 0 e.2) :=
          laid_layout hindent hatoms e.2 0 (Part.self.of_value he)
        exact hlaid.entryLines hindent hatoms .self he
    | leaf a => exact a.elim

/-- A key in front of a list that is too long for its line, an item that is too long for any, and an
item that just fits. -/
theorem pretty_lines_nested :
    let v : Datum := .map (.atom (.bare "key"))
      (.list [.atom (.bare "long-atom"), .list [.atom (.bare "a"), .atom (.quoted "b")]]) []
    let o : LayoutOptions := ⟨2, 9⟩
    0 ≤ o.indent ∧ (∀ a, Part (.atom a) v → ofChar '\n' ∉ a.serialize) ∧
      (v.pretty o true).splitLines =
        [Text.ofString "key: (", "  long-atom", "  (a \"b\")", ")"] ∧
      ∀ line ∈ [Text.ofString "key: (", "  long-atom", "  (a \"b\")", ")"], Line o true v line := by
  intro v o
  have hindent : 0 ≤ o.indent := by decide
  have hatoms : ∀ a, Part (.atom a) v → ofChar '\n' ∉ a.serialize := by
    intro a ha
    simp only [v, Part.atom_map_iff, Part.atom_list_iff, Part.atom_iff, List.mem_cons,
      List.not_mem_nil, or_false, exists_eq_left, exists_eq_or_imp] at ha
    rcases ha with rfl | rfl | rfl | rfl
    all_goals decide +kernel
  have hlines : (v.pretty o true).splitLines =
      [Text.ofString "key: (", "  long-atom", "  (a \"b\")", ")"] := by decide +kernel
  refine ⟨hindent, hatoms, hlines, ?_⟩
  have hv : ¬ (true = true ∧ v = .list []) := by simp [v]
  have hall := (pretty_lines v o true hindent hatoms).2 hv
  rwa [hlines] at hall

end Datum

end MiniLisp
