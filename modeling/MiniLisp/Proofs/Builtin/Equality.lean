import Mathlib.Data.List.Chain
import MiniLisp.Evaluation.Apply

/-!
# Equality is equality up to forms

Two values are equal if nothing but the forms of their atoms tells them apart, functions being told
apart by identity. Erasing says the same without comparing: **two values are equal if and only if
they become identical when the form of every atom is erased** (`Value.same_iff`). So equality is an
equivalence relation, which is what lets a chain of neighbours stand for all pairs (`allEqual_iff`)
and makes any spelling of a key as good as any other (`entry?_of_first`, `entry?_of_absent`).
-/

namespace MiniLisp

/-! ## Trees -/

namespace Tree

variable {α β : Type}

/-- The tree with bare atoms only, each leaf replaced by what tells it from others. -/
def erased (identity : α → β) : Tree α → Tree β :=
  fold {
    atom := fun a => .atom (Atom.bare a.text)
    list := .list
    map := .map
    leaf := fun a => .leaf (identity a) }

variable {identity : α → β} {leafSame : α → α → Bool}

theorem erased_list (ts : List (Tree α)) :
    (Tree.list ts).erased identity = .list (ts.map (erased identity)) := by
  rw [erased, fold_list]

theorem erased_map (k v : Tree α) (rest : List (Tree α × Tree α)) :
    (Tree.map k v rest).erased identity = .map (k.erased identity) (v.erased identity)
      (rest.map fun e => (e.1.erased identity, e.2.erased identity)) := by
  rw [erased, fold_map]

theorem sameItems_iff {ts : List (Tree α)}
    (h : ∀ t ∈ ts, ∀ u, same leafSame t u = true ↔ t.erased identity = u.erased identity)
    (us : List (Tree α)) :
    sameItems leafSame ts us = true ↔ ts.map (erased identity) = us.map (erased identity) := by
  induction ts generalizing us with
  | nil => cases us <;> simp [sameItems]
  | cons t ts ih =>
    obtain ⟨ht, hts⟩ := List.forall_mem_cons.1 h
    cases us with
    | nil => simp [sameItems]
    | cons u us =>
      rw [sameItems, Bool.and_eq_true, ht u, ih hts us, List.map_cons, List.map_cons,
        List.cons.injEq]

theorem sameEntries_iff {es : List (Tree α × Tree α)}
    (h : ∀ e ∈ es, (∀ u, same leafSame e.1 u = true ↔ e.1.erased identity = u.erased identity) ∧
      ∀ u, same leafSame e.2 u = true ↔ e.2.erased identity = u.erased identity)
    (fs : List (Tree α × Tree α)) :
    sameEntries leafSame es fs = true ↔
      (es.map fun e => (e.1.erased identity, e.2.erased identity)) =
        fs.map fun e => (e.1.erased identity, e.2.erased identity) := by
  induction es generalizing fs with
  | nil => cases fs <;> simp [sameEntries]
  | cons e es ih =>
    obtain ⟨⟨hk, hv⟩, hes⟩ := List.forall_mem_cons.1 h
    cases fs with
    | nil => simp [sameEntries]
    | cons f fs =>
      rw [sameEntries, Bool.and_eq_true, Bool.and_eq_true, hk f.1, hv f.2, ih hes fs, List.map_cons,
        List.map_cons, List.cons.injEq, Prod.mk.injEq]

/-- Trees agree up to forms if and only if they are identical once the forms are erased. -/
theorem same_iff (hleaf : ∀ a b, leafSame a b = true ↔ identity a = identity b) (t u : Tree α) :
    same leafSame t u = true ↔ t.erased identity = u.erased identity := by
  induction t using Tree.induct generalizing u with
  | atom a => cases u <;> simp [same, erased, fold, Atom.bare]
  | list ts ih =>
    cases u with
    | list us => rw [same, sameItems_iff ih, erased_list, erased_list, list.injEq]
    | _ => simp [same, erased, fold]
  | map k v rest hk hv ih =>
    cases u with
    | map k' v' rest' =>
      rw [same, Bool.and_eq_true, Bool.and_eq_true, hk, hv, sameEntries_iff ih, erased_map,
        erased_map, map.injEq, and_assoc]
    | _ => simp [same, erased, fold]
  | leaf a =>
    cases u with
    | leaf b => simp [same, erased, fold, hleaf]
    | _ => simp [same, erased, fold]

end Tree

/-! ## Values -/

/-- What functions are compared by. -/
inductive Callable.Identity
  | builtin (copy : Nat) (op : Builtin)
  | closure (serial : Nat)

def Callable.identity : Callable → Callable.Identity
  | .builtin copy op => .builtin copy op
  | .closure serial _ _ _ => .closure serial

theorem Callable.same_iff (f g : Callable) : f.same g = true ↔ f.identity = g.identity := by
  cases f <;> cases g <;> simp [same, identity]

namespace Value

/-- The value with the form of every atom erased, and of each function its identity only. -/
def erased (v : Value) : Tree Callable.Identity := Tree.erased Callable.identity v

theorem same_iff (a b : Value) : a.same b = true ↔ a.erased = b.erased :=
  Tree.same_iff Callable.same_iff a b

theorem same_trans (a b c : Value) (h : a.same b = true) (h' : b.same c = true) :
    a.same c = true :=
  (same_iff a c).2 (((same_iff a b).1 h).trans ((same_iff b c).1 h'))

/-- A key is found at the first entry whose key it equals. -/
theorem entry?_of_first {entries : List (Value × Value)} {key : Value} {i : Nat}
    (hi : i < entries.length) (heq : entries[i].1.erased = key.erased)
    (hfirst : ∀ j (hj : j < i), entries[j].1.erased ≠ key.erased) :
    Value.entry? key entries = some entries[i].2 := by
  have hfound : entries.find? (fun e => Tree.same Callable.same e.1 key) = some entries[i] := by
    refine List.find?_eq_some_iff_getElem.2 ⟨(same_iff _ _).2 heq, i, hi, rfl, fun j hj => ?_⟩
    rw [Bool.not_eq_true', Bool.eq_false_iff]
    exact fun h => hfirst j hj ((same_iff _ _).1 h)
  rw [Value.entry?, Tree.find?, hfound, Option.map_some]

theorem entry?_of_absent {entries : List (Value × Value)} {key : Value}
    (h : ∀ e ∈ entries, e.1.erased ≠ key.erased) : Value.entry? key entries = none := by
  rw [Value.entry?, Tree.find?, Option.map_eq_none_iff, List.find?_eq_none]
  exact fun e he hsame => h e he ((same_iff _ _).1 hsame)

end Value

/-! ## Builtins -/

/-- Neighbours that are related in a chain are all related, if the relation is transitive. -/
theorem Arithmetic.chained_iff_pairwise {α : Type} {related : α → α → Bool}
    (htrans : ∀ a b c, related a b = true → related b c = true → related a c = true)
    (xs : List α) : chained related xs = true ↔ xs.Pairwise fun a b => related a b = true := by
  have hchain : chained related xs = true ↔ xs.IsChain fun a b => related a b = true := by
    induction xs with
    | nil => simp [chained]
    | cons a xs ih =>
      cases xs with
      | nil => simp [chained]
      | cons b xs => rw [chained, Bool.and_eq_true, ih, List.isChain_cons_cons]
  have : Trans (fun a b => related a b = true) (fun a b => related a b = true)
      (fun a b => related a b = true) := ⟨htrans _ _ _⟩
  rw [hchain, List.isChain_iff_pairwise]

theorem Structure.allEqual_iff (args : List Value) :
    allEqual args = true ↔ ∀ a ∈ args, ∀ b ∈ args, a.erased = b.erased := by
  let equal (a b : Value) : Prop := a.erased = b.erased
  have : Std.Symm equal := ⟨fun _ _ => Eq.symm⟩
  rw [allEqual, Arithmetic.chained_iff_pairwise Value.same_trans]
  simp only [Value.same_iff]
  constructor
  · intro h a ha b hb
    exact List.Pairwise.forall_of_forall (R := equal) (fun _ _ => rfl) h ha hb
  · exact List.pairwise_of_forall_mem_list

/-- **Equality is equality up to forms wherever it is used.** Values are equal if and only if they
are identical once the form of every atom is erased. So `=` says whether any number of arguments are
all equal in this sense, `!=` says the opposite, and `get` gives the value of the first entry whose
key equals the one that is asked for, or else the default, which is the empty list if none is
given. -/
theorem Builtin.equality_up_to_forms (evaluate : Evaluate) (copy : Nat) :
    let call (b : Builtin) (args : List Value) : Run Value :=
      Callable.apply evaluate args (.builtin copy b)
    (∀ a b : Value, a.same b = true ↔ a.erased = b.erased) ∧
    (∀ args : List Value, ∃ r : Bool, (r = true ↔ ∀ a ∈ args, ∀ b ∈ args, a.erased = b.erased) ∧
      call .equal args = pure (Value.ofBool r) ∧ call .unequal args = pure (Value.ofBool !r)) ∧
    ∀ (k v : Value) (rest : List (Value × Value)) (key default : Value),
      let entries := (k, v) :: rest
      (∀ i (hi : i < entries.length), entries[i].1.erased = key.erased →
        (∀ j (hj : j < i), entries[j].1.erased ≠ key.erased) →
        call .get [.map k v rest, key] = pure entries[i].2 ∧
          call .get [.map k v rest, key, default] = pure entries[i].2) ∧
      ((∀ e ∈ entries, e.1.erased ≠ key.erased) →
        call .get [.map k v rest, key] = pure Tree.nil ∧
          call .get [.map k v rest, key, default] = pure default) := by
  intro call
  refine ⟨Value.same_iff, fun args => ?_, fun k v rest key default => ?_⟩
  · exact ⟨Structure.allEqual args, Structure.allEqual_iff args, rfl, rfl⟩
  · intro entries
    -- without a default the answer is the empty list if there is no entry
    have hget : call .get [.map k v rest, key] =
        pure ((Value.entry? key entries).getD Tree.nil) := rfl
    have hgetD : call .get [.map k v rest, key, default] =
        pure ((Value.entry? key entries).getD default) := rfl
    rw [hget, hgetD]
    constructor
    · intro i hi heq hfirst
      rw [Value.entry?_of_first hi heq hfirst]
      exact ⟨rfl, rfl⟩
    · intro habsent
      rw [Value.entry?_of_absent habsent]
      exact ⟨rfl, rfl⟩

end MiniLisp
