import Mathlib.Data.List.Forall2
import MiniLisp.Tree.Display

/-!
# Related trees

Two trees are **related** by a relation `r` on their leaves if they have the same shape and the same
atoms, and their leaves are related by `r` place by place. Whatever is computed from the parts of a
tree then comes out alike:

* `Related.fold`: folds of related trees are related, if the two algebras respect the relation;
* `Related.display_eq`, `Related.inspect_eq`, `Related.isLiteral_eq`, `Related.isTrue_eq`: what
  messages and evaluation ask of a tree is the same for both;
* `Related.same_eq`, `Related.find?`: related trees compare alike, and so find related entries;
* `Related.toDatum`: both are the same datum, or both have a first leaf and these are related.

`Agree` is the same idea for results that may be errors.
-/

namespace MiniLisp

/-- Both succeed, with values related by `r`, or both fail, with errors related by `s`. -/
inductive Agree {ε ε' α β : Type} (s : ε → ε' → Prop) (r : α → β → Prop) :
    Except ε α → Except ε' β → Prop
  | ok {a : α} {b : β} (h : r a b) : Agree s r (.ok a) (.ok b)
  | error {e : ε} {e' : ε'} (h : s e e') : Agree s r (.error e) (.error e')

namespace Agree

variable {ε ε' α β γ δ : Type} {s : ε → ε' → Prop} {r : α → β → Prop} {q : γ → δ → Prop}

theorem bind {x : Except ε α} {y : Except ε' β} {f : α → Except ε γ} {g : β → Except ε' δ}
    (h : Agree s r x y) (hf : ∀ a b, r a b → Agree s q (f a) (g b)) :
    Agree s q (x >>= f) (y >>= g) := by
  cases h with
  | ok h => exact hf _ _ h
  | error h => exact .error h

theorem refl (x : Except ε α) : Agree Eq Eq x x := by
  cases x with
  | ok a => exact .ok rfl
  | error e => exact .error rfl

theorem mapM {xs : List α} {ys : List β} {f : α → Except ε γ} {g : β → Except ε' δ}
    (h : List.Forall₂ r xs ys) (hf : ∀ a b, r a b → Agree s q (f a) (g b)) :
    Agree s (List.Forall₂ q) (xs.mapM f) (ys.mapM g) := by
  induction h with
  | nil => exact .ok .nil
  | cons hab _ ih =>
    rw [List.mapM_cons, List.mapM_cons]
    refine (hf _ _ hab).bind fun c d hcd => ?_
    refine ih.bind fun cs ds hcds => ?_
    exact .ok (.cons hcd hcds)

theorem mono {s' : ε → ε' → Prop} {r' : α → β → Prop} {x : Except ε α} {y : Except ε' β}
    (h : Agree s r x y) (hs : ∀ e e', s e e' → s' e e') (hr : ∀ a b, r a b → r' a b) :
    Agree s' r' x y := by
  cases h with
  | ok h => exact .ok (hr _ _ h)
  | error h => exact .error (hs _ _ h)

end Agree

namespace Tree

variable {α β γ δ : Type} {r : α → β → Prop}

mutual

/-- The same shape and the same atoms, with leaves related by `r`. -/
inductive Related (r : α → β → Prop) : Tree α → Tree β → Prop
  | atom (a : Atom) : Related r (.atom a) (.atom a)
  | list {ts : List (Tree α)} {us : List (Tree β)} (h : List.Forall₂ (Related r) ts us) :
      Related r (.list ts) (.list us)
  | map {k v : Tree α} {k' v' : Tree β} {rest : List (Tree α × Tree α)}
      {rest' : List (Tree β × Tree β)} (hk : Related r k k') (hv : Related r v v')
      (h : List.Forall₂ (RelatedEntry r) rest rest') :
      Related r (.map k v rest) (.map k' v' rest')
  | leaf {a : α} {b : β} (h : r a b) : Related r (.leaf a) (.leaf b)

/-- Both sides of two entries are related. -/
inductive RelatedEntry (r : α → β → Prop) : Tree α × Tree α → Tree β × Tree β → Prop
  | mk {e : Tree α × Tree α} {e' : Tree β × Tree β} (hk : Related r e.1 e'.1)
      (hv : Related r e.2 e'.2) : RelatedEntry r e e'

end

namespace Related

variable {t : Tree α} {u : Tree β}

/-- Induction on two related trees, with the items of lists and the sides of entries as hypotheses
place by place. -/
theorem induct {P : Tree α → Tree β → Prop} (atom : ∀ a, P (.atom a) (.atom a))
    (list : ∀ ts us, List.Forall₂ P ts us → P (.list ts) (.list us))
    (map : ∀ k v rest k' v' rest', P k k' → P v v' →
      List.Forall₂ (fun e e' => P e.1 e'.1 ∧ P e.2 e'.2) rest rest' →
      P (.map k v rest) (.map k' v' rest'))
    (leaf : ∀ a b, r a b → P (.leaf a) (.leaf b)) (h : Related r t u) : P t u :=
  @Related.rec α β r (fun t u _ => P t u) (fun e e' _ => P e.1 e'.1 ∧ P e.2 e'.2)
    (fun ts us _ => List.Forall₂ P ts us)
    (fun es es' _ => List.Forall₂
      (fun (e : Tree α × Tree α) (e' : Tree β × Tree β) => P e.1 e'.1 ∧ P e.2 e'.2) es es')
    atom (fun _ ih => list _ _ ih) (fun _ _ _ hk hv ih => map _ _ _ _ _ _ hk hv ih) (leaf _ _)
    (fun _ _ hk hv => ⟨hk, hv⟩) .nil (fun _ _ h hs => .cons h hs) .nil
    (fun _ _ h hs => .cons h hs) t u h

theorem refl {r : α → α → Prop} (hr : ∀ a, r a a) (t : Tree α) : Related r t t := by
  induction t using Tree.induct with
  | atom a => exact .atom a
  | list ts ih => exact .list (List.forall₂_same.2 ih)
  | map k v rest hk hv ih =>
    exact .map hk hv (List.forall₂_same.2 fun e he => ⟨(ih e he).1, (ih e he).2⟩)
  | leaf a => exact .leaf (hr a)

/-- Entries with equal sides are equal. -/
theorem eq_of_entries {es es' : List (γ × δ)}
    (h : List.Forall₂ (fun e e' => e.1 = e'.1 ∧ e.2 = e'.2) es es') : es = es' := by
  rw [← List.forall₂_eq_eq_eq]
  exact h.imp fun e e' he => Prod.ext he.1 he.2

/-- Trees with equal leaves are equal. -/
theorem eq {t u : Tree α} (h : Related Eq t u) : t = u := by
  refine induct (P := Eq) (fun _ => rfl) ?_ ?_ (fun _ _ h => congrArg Tree.leaf h) h
  · intro ts us ih
    rw [List.forall₂_eq_eq_eq] at ih
    rw [ih]
  · intro k v rest k' v' rest' hk hv ih
    rw [hk, hv, eq_of_entries ih]

/-- Any two copies of a datum are related: there is no leaf to compare. -/
theorem ofDatum (d : Datum) : Related r (Tree.ofDatum d) (Tree.ofDatum d) := by
  induction d using Tree.induct with
  | atom a => exact .atom a
  | list ts ih =>
    simp only [Tree.ofDatum, Tree.mapLeaf, fold_list]
    refine .list ?_
    rw [List.forall₂_map_left_iff, List.forall₂_map_right_iff, List.forall₂_same]
    exact ih
  | map k v rest hk hv ih =>
    simp only [Tree.ofDatum, Tree.mapLeaf, fold_map]
    refine .map hk hv ?_
    rw [List.forall₂_map_left_iff, List.forall₂_map_right_iff, List.forall₂_same]
    exact fun e he => ⟨(ih e he).1, (ih e he).2⟩
  | leaf a => exact a.elim

/-- **Folds of related trees are related**, if the two algebras respect the relation. -/
theorem fold (h : Related r t u) {f : Algebra α γ} {g : Algebra β δ} {q : γ → δ → Prop}
    (hatom : ∀ a, q (f.atom a) (g.atom a))
    (hlist : ∀ xs ys, List.Forall₂ q xs ys → q (f.list xs) (g.list ys))
    (hmap : ∀ k v rest k' v' rest', q k k' → q v v' →
      List.Forall₂ (fun e e' => q e.1 e'.1 ∧ q e.2 e'.2) rest rest' →
      q (f.map k v rest) (g.map k' v' rest'))
    (hleaf : ∀ a b, r a b → q (f.leaf a) (g.leaf b)) :
    q (Tree.fold f t) (Tree.fold g u) := by
  refine induct (P := fun t u => q (Tree.fold f t) (Tree.fold g u)) hatom ?_ ?_ hleaf h
  · intro ts us ih
    rw [fold_list, fold_list]
    refine hlist _ _ ?_
    rw [List.forall₂_map_left_iff, List.forall₂_map_right_iff]
    exact ih
  · intro k v rest k' v' rest' hk hv ih
    rw [fold_map, fold_map]
    refine hmap _ _ _ _ _ _ hk hv ?_
    rw [List.forall₂_map_left_iff, List.forall₂_map_right_iff]
    exact ih

/-- Two folds that differ in what they make of leaves only, and there not on related ones, agree on
related trees. -/
theorem fold_eq (h : Related r t u) {f : Algebra α γ} {leaf : β → γ}
    (hleaf : ∀ a b, r a b → f.leaf a = leaf b) :
    Tree.fold f t = Tree.fold { atom := f.atom, list := f.list, map := f.map, leaf } u := by
  refine h.fold (q := Eq) (fun _ => rfl) ?_ ?_ hleaf
  · intro xs ys hxs
    rw [List.forall₂_eq_eq_eq] at hxs
    rw [hxs]
  · intro k v rest k' v' rest' hk hv hrest
    rw [hk, hv, eq_of_entries hrest]

theorem display_eq (h : Related r t u) {label : α → Text} {label' : β → Text}
    (hlabel : ∀ a b, r a b → label a = label' b) (width : Int) :
    t.display label width = u.display label' width :=
  h.fold_eq hlabel

theorem inspect_eq (h : Related r t u) {label : α → Text} {label' : β → Text}
    (hlabel : ∀ a b, r a b → label a = label' b) : t.inspect label = u.inspect label' :=
  h.fold_eq hlabel

theorem isLiteral_eq (h : Related r t u) : t.isLiteral = u.isLiteral :=
  h.fold_eq fun _ _ _ => rfl

theorem isTrue_eq (h : Related r t u) : t.isTrue = u.isTrue := by
  cases h with
  | list h => cases h <;> rfl
  | _ => rfl

/-- Related trees are the same datum, or have related first leaves. -/
theorem toDatum (h : Related r t u) :
    Agree r Eq t.toDatum u.toDatum := by
  refine h.fold (fun a => .ok rfl) ?_ ?_ (fun a b hab => .error hab)
  · intro xs ys hxs
    refine (Agree.mapM hxs fun x y hxy => hxy).bind fun ds ds' hds => ?_
    rw [List.forall₂_eq_eq_eq] at hds
    exact .ok (by rw [hds])
  · intro k v rest k' v' rest' hk hv hrest
    refine hk.bind fun k k' hk => hv.bind fun v v' hv => ?_
    have hentry := Agree.mapM (q := Eq) (s := r) hrest (f := fun e => do return (← e.1, ← e.2))
      (g := fun e => do return (← e.1, ← e.2)) fun e e' he =>
        he.1.bind fun _ _ h => he.2.bind fun _ _ h' => .ok (by rw [h, h'])
    refine hentry.bind fun ds ds' hds => ?_
    rw [List.forall₂_eq_eq_eq] at hds
    exact .ok (by rw [hk, hv, hds])

section Same

variable {same : α → α → Bool} {same' : β → β → Bool}

theorem sameItems_eq {ts us : List (Tree α)} {ts' us' : List (Tree β)}
    (h : List.Forall₂ (fun t t' => ∀ u u', Related r u u' →
      Tree.same same t u = Tree.same same' t' u') ts ts')
    (hus : List.Forall₂ (Related r) us us') :
    Tree.sameItems same ts us = Tree.sameItems same' ts' us' := by
  induction h generalizing us us' with
  | nil => cases hus <;> rfl
  | cons ht _ ih =>
    cases hus with
    | nil => rfl
    | cons hu hus => rw [Tree.sameItems, Tree.sameItems, ht _ _ hu, ih hus]

theorem sameEntries_eq {es fs : List (Tree α × Tree α)} {es' fs' : List (Tree β × Tree β)}
    (h : List.Forall₂ (fun e e' =>
      (∀ u u', Related r u u' → Tree.same same e.1 u = Tree.same same' e'.1 u') ∧
      ∀ u u', Related r u u' → Tree.same same e.2 u = Tree.same same' e'.2 u') es es')
    (hfs : List.Forall₂ (RelatedEntry r) fs fs') :
    Tree.sameEntries same es fs = Tree.sameEntries same' es' fs' := by
  induction h generalizing fs fs' with
  | nil => cases hfs <;> rfl
  | cons he _ ih =>
    cases hfs with
    | nil => rfl
    | cons hf hfs =>
      obtain ⟨hk, hv⟩ := hf
      rw [Tree.sameEntries, Tree.sameEntries, he.1 _ _ hk, he.2 _ _ hv, ih hfs]

/-- Related trees compare alike, if their leaves do. -/
theorem same_eq {t u : Tree α} {t' u' : Tree β} (ht : Related r t t') (hu : Related r u u')
    (hsame : ∀ a b c d, r a b → r c d → same a c = same' b d) :
    Tree.same same t u = Tree.same same' t' u' := by
  refine induct (P := fun t t' => ∀ u u', Related r u u' →
    Tree.same same t u = Tree.same same' t' u') ?_ ?_ ?_ ?_ ht u u' hu
  · intro a u u' hu
    cases hu <;> rfl
  · intro ts ts' ih u u' hu
    cases hu with
    | list hus => exact sameItems_eq ih hus
    | _ => rfl
  · intro k v rest k' v' rest' hk hv ih u u' hu
    cases hu with
    | map huk huv hus =>
      rw [Tree.same, Tree.same, hk _ _ huk, hv _ _ huv, sameEntries_eq ih hus]
    | _ => rfl
  · intro a b hab u u' hu
    cases hu with
    | leaf hcd => exact hsame _ _ _ _ hab hcd
    | _ => rfl

/-- Related entries are found under related keys. -/
theorem find? {k : Tree α} {k' : Tree β} (hk : Related r k k') {es : List (Tree α × Tree α)}
    {es' : List (Tree β × Tree β)} (h : List.Forall₂ (RelatedEntry r) es es')
    (hsame : ∀ a b c d, r a b → r c d → same a c = same' b d) :
    Option.Rel (Related r) (Tree.find? same k es) (Tree.find? same' k' es') := by
  induction h with
  | nil => exact .none
  | @cons e e' es es' he _ ih =>
    obtain ⟨hek, hev⟩ := he
    have hcompare := same_eq hek hk hsame
    cases hc : Tree.same same' e'.1 k' with
    | true =>
      rw [hc] at hcompare
      simp only [Tree.find?, List.find?_cons, hcompare, hc]
      exact .some hev
    | false =>
      rw [hc] at hcompare
      simp only [Tree.find?, List.find?_cons, hcompare, hc]
      exact ih

end Same

end Related

end Tree

end MiniLisp
