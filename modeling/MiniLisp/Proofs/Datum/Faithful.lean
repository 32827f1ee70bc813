import MiniLisp.Proofs.Datum.RoundTrip
import MiniLisp.Proofs.Document.Spacing

/-!
# Data that are written as they are

An atom is **well-formed** if its form can carry its text: a bare atom is a bare word, and a guarded
one does not hold the mark that would end it (`Atom.WellFormed`). Only such atoms come out of the
lexer, and so **every datum that is read is well-formed** (`Source.wellFormed_of_parse`). A
well-formed datum is written in the forms that it has (`Datum.normal_eq`), and so comes back from
its writing unchanged (`Datum.readsAs_of_wellFormed`).
-/

namespace MiniLisp

open CodePoint (ofChar)

/-- The form of the atom can carry its text. -/
structure Atom.WellFormed (a : Atom) : Prop where
  /-- A bare atom is a bare word, which has at least one code point. -/
  bare : a.form = .bare → a.text.isBareWord = true
  /-- Nothing in a guarded atom ends it. -/
  guarded : a.form = .guarded → ¬ [ofChar '"', ofChar '#'] <:+: a.text

namespace Atom

theorem wellFormed_bare {t : Text} (h : t.isBareWord = true) : (Atom.bare t).WellFormed where
  bare _ := h
  guarded h := nomatch h

theorem wellFormed_quoted (t : Text) : (Atom.quoted t).WellFormed where
  bare h := nomatch h
  guarded h := nomatch h

theorem wellFormed_ofBool (b : Bool) : (Atom.ofBool b).WellFormed := by
  cases b <;> exact wellFormed_bare (by decide)

/-- A well-formed atom is written in its own form. -/
theorem WellFormed.normal_eq {a : Atom} (h : a.WellFormed) : a.normal = a := by
  obtain ⟨text, form⟩ := a
  cases form with
  | bare =>
    have hword : text.isBareWord = true := h.bare rfl
    simp [normal, normalForm, hword]
  | quoted => rfl
  | guarded =>
    have hinside : ¬ [ofChar '"', ofChar '#'] <:+: text := h.guarded rfl
    simp [normal, normalForm, hinside]

end Atom

/-- The atom of a token is well-formed. -/
theorem Spells.wellFormed {x : Lexeme} {u : Text} {form : Form} (h : Spells x u)
    (hform : x.kind.form? = some form) : Atom.WellFormed ⟨x.text, form⟩ := by
  cases h with
  | bare hu =>
    cases hform
    exact Atom.wellFormed_bare hu
  | quoted _ =>
    cases hform
    exact Atom.wellFormed_quoted _
  | guarded ht =>
    cases hform
    exact ⟨(nomatch ·), fun _ => ht⟩
  | _ => cases hform

/-- Every lexeme of a rendered text is spelt out somewhere in it. -/
theorem Renders.exists_spells {xs : List Lexeme} {s : Text} (h : Renders xs s) :
    ∀ x ∈ xs, ∃ u, Spells x u := by
  induction h with
  | nil => simp
  | blank _ _ ih => exact ih
  | lexeme hx _ _ ih => exact List.forall_mem_cons.2 ⟨⟨_, hx⟩, ih⟩

/-! ## Trees -/

namespace Tree

variable {α β : Type} {p : Atom → Prop} {q : α → Prop}

/-- Every atom of the tree, keys included, has the property `p`, and every leaf the property `q`. -/
inductive All (p : Atom → Prop) (q : α → Prop) : Tree α → Prop
  | atom {a : Atom} (h : p a) : All p q (.atom a)
  | list {ts : List (Tree α)} (h : ∀ t ∈ ts, All p q t) : All p q (.list ts)
  | map {k v : Tree α} {rest : List (Tree α × Tree α)} (hk : All p q k) (hv : All p q v)
      (hkeys : ∀ e ∈ rest, All p q e.1) (hvalues : ∀ e ∈ rest, All p q e.2) :
      All p q (.map k v rest)
  | leaf {a : α} (h : q a) : All p q (.leaf a)

theorem All.nil : All p q (Tree.nil : Tree α) := .list (by simp)

theorem All.mono {p' : Atom → Prop} {q' : α → Prop} {t : Tree α} (h : All p q t)
    (hp : ∀ a, p a → p' a) (hq : ∀ a, q a → q' a) : All p' q' t := by
  induction h with
  | atom ha => exact .atom (hp _ ha)
  | list _ ih => exact .list ih
  | map _ _ _ _ hk hv hkeys hvalues => exact .map hk hv hkeys hvalues
  | leaf ha => exact .leaf (hq _ ha)

theorem all_atom {a : Atom} : All p q (.atom a) ↔ p a :=
  ⟨fun | .atom h => h, .atom⟩

theorem all_list {ts : List (Tree α)} : All p q (.list ts) ↔ ∀ t ∈ ts, All p q t :=
  ⟨fun | .list h => h, .list⟩

theorem all_map {k v : Tree α} {rest : List (Tree α × Tree α)} :
    All p q (.map k v rest) ↔
      All p q k ∧ All p q v ∧ ∀ e ∈ rest, All p q e.1 ∧ All p q e.2 := by
  constructor
  · rintro (_ | _ | ⟨hk, hv, hkeys, hvalues⟩)
    exact ⟨hk, hv, fun e he => ⟨hkeys e he, hvalues e he⟩⟩
  · rintro ⟨hk, hv, hrest⟩
    exact .map hk hv (fun e he => (hrest e he).1) fun e he => (hrest e he).2

theorem ofDatum_list (ds : List Datum) : (ofDatum (.list ds) : Tree α) = .list (ds.map ofDatum) := by
  simp only [ofDatum, mapLeaf, fold_list]

theorem ofDatum_map (k v : Datum) (rest : List (Datum × Datum)) :
    (ofDatum (.map k v rest) : Tree α) =
      .map (ofDatum k) (ofDatum v) (rest.map (Prod.map ofDatum ofDatum)) := by
  simp only [ofDatum, mapLeaf, fold_map]
  rfl

/-- A datum has its atoms also where it is seen as a tree that could have leaves. -/
theorem all_ofDatum {d : Datum} {q' : Empty → Prop} :
    All p q (ofDatum d : Tree α) ↔ All p q' d := by
  induction d using Tree.induct with
  | atom a => exact all_atom.trans all_atom.symm
  | list ds ih =>
    rw [ofDatum_list, all_list, all_list, List.forall_mem_map]
    exact forall₂_congr ih
  | map k v rest hk hv ih =>
    rw [ofDatum_map, all_map, all_map, hk, hv, List.forall_mem_map]
    exact and_congr_right' (and_congr_right' (forall₂_congr fun e he =>
      and_congr (ih e he).1 (ih e he).2))
  | leaf a => exact a.elim

end Tree

/-- The atom that the lexeme is, if it is one, has the property. -/
def Lexeme.AtomHas (p : Atom → Prop) (x : Lexeme) : Prop :=
  ∀ form, x.kind.form? = some form → p ⟨x.text, form⟩

namespace Grammar

variable {α : Type} {p : Atom → Prop} {q : α → Prop}

mutual

/-- The atoms of a derived item are those of its lexemes. -/
theorem Item.all {d : Nat} {xs : List Lexeme} {v : Tree α} (h : Item d xs v)
    (hxs : ∀ x ∈ xs, x.AtomHas p) : v.All p q := by
  match h with
  | .atom hform => exact .atom (hxs _ List.mem_cons_self _ hform)
  | .parens _ _ hbody =>
    refine Body.all hbody fun x hx => hxs x ?_
    exact List.mem_cons_of_mem _ (List.mem_append_left _ hx)

theorem Body.all {d : Nat} {xs : List Lexeme} {v : Tree α} (h : Body d xs v)
    (hxs : ∀ x ∈ xs, x.AtomHas p) : v.All p q := by
  match h with
  | .list hitems => exact .list (Items.all hitems hxs)
  | .map hentries =>
    obtain ⟨⟨hk, hv⟩, hrest⟩ := List.forall_mem_cons.1 (Entries.all hentries hxs)
    exact .map hk hv (fun e he => (hrest e he).1) fun e he => (hrest e he).2

theorem Items.all {d : Nat} {xs : List Lexeme} {vs : List (Tree α)} (h : Items d xs vs)
    (hxs : ∀ x ∈ xs, x.AtomHas p) : ∀ v ∈ vs, v.All p q := by
  match h with
  | .nil => simp
  | .cons hitem hitems =>
    obtain ⟨hleft, hright⟩ := List.forall_mem_append.1 hxs
    exact List.forall_mem_cons.2 ⟨Item.all hitem hleft, Items.all hitems hright⟩

theorem Entries.all {d : Nat} {xs : List Lexeme} {es : List (Tree α × Tree α)}
    (h : Entries d xs es) (hxs : ∀ x ∈ xs, x.AtomHas p) :
    ∀ e ∈ es, e.1.All p q ∧ e.2.All p q := by
  match h with
  | .nil => simp
  | .cons hkey _ hvalue hentries =>
    obtain ⟨hleft, hrest⟩ := List.forall_mem_append.1 hxs
    obtain ⟨hmiddle, hright⟩ := List.forall_mem_append.1 (List.forall_mem_cons.1 hrest).2
    exact List.forall_mem_cons.2
      ⟨⟨Item.all hkey hleft, Item.all hvalue hmiddle⟩, Entries.all hentries hright⟩

end

end Grammar

/-- Every lexeme of a document without a failure is spelt out in its text. -/
theorem Source.exists_spells {source : Source} (h : source.lex.failure = none) :
    ∀ x ∈ source.lex.significant, ∃ u, Spells x u := by
  intro x hx
  have hcontent := lex_content h
  rw [hcontent] at h hx
  rw [Lexed.significant_eq] at hx
  exact (renders_of_lexFrom h).exists_spells x (List.mem_of_mem_filter hx)

/-- **Every datum that is read is well-formed.** -/
theorem Source.wellFormed_of_parse {source : Source} {limit : Int} {d : Datum} {q : Empty → Prop}
    (h : (source.parse limit).result = .ok d) : d.All Atom.WellFormed q := by
  obtain ⟨hfail, hbody⟩ := (source.parse_ok_iff limit d).1 h
  refine hbody.all fun x hx form hform => ?_
  obtain ⟨u, hspells⟩ := exists_spells hfail x hx
  exact hspells.wellFormed hform

namespace Datum

variable {q : Empty → Prop} {d : Datum}

/-- A well-formed datum is written in the forms that it has. -/
theorem normal_eq (h : d.All Atom.WellFormed q) : d.normal = d := by
  induction d using Tree.induct with
  | atom a => exact congrArg Tree.atom (Tree.all_atom.1 h).normal_eq
  | list items ih =>
    have hitems := Tree.all_list.1 h
    have hmap : items.map normal = items.map id :=
      List.map_congr_left fun t ht => ih t ht (hitems t ht)
    rw [normal_list, hmap, List.map_id]
  | map key value rest hk hv ih =>
    obtain ⟨hkey, hvalue, hrest⟩ := Tree.all_map.1 h
    have hmap : rest.map normalEntry = rest.map id := List.map_congr_left fun e he =>
      Prod.ext ((ih e he).1 (hrest e he).1) ((ih e he).2 (hrest e he).2)
    rw [normal_map, hk hkey, hv hvalue, hmap, List.map_id]
  | leaf a => exact a.elim

/-- **A well-formed datum comes back from its writing** as the only item of a document. -/
theorem readsAs_of_wellFormed (h : d.All Atom.WellFormed q) : d.serialize.ReadsAs (.list [d]) := by
  refine (writes_serialize d).renders.readsAs fun n hn => ?_
  rw [nesting_lexemes] at hn
  have hitem := derived_lexemes d n hn
  rw [normal_eq h] at hitem
  exact .list (.single hitem)

theorem nesting_serialize (d : Datum) : d.serialize.nesting = d.nesting := by
  have hcomment := (derived_lexemes d d.nesting (Nat.le_refl _)).ne_comment
  rw [Text.nesting, (writes_serialize d).renders.significant hcomment, nesting_lexemes]

end Datum

end MiniLisp
