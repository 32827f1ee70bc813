import Mathlib.Logic.Basic
import MiniLisp.Evaluation.Evaluate

/-!
# Literal trees evaluate to themselves

A literal tree holds neither symbols nor functions, so there is nothing in it to look up or to
apply. **Its evaluation hands it back as it is, or runs out of depth, and takes no step**
(`evaluate_literal`).

* `Tree.height`: the depth that a literal tree needs, one level for the tree and one for each list
  or map on the way down. The keys of a map are not evaluated and do not count.
* `evaluate_of_isLiteral`: the run as a whole, for any depth that is left. The literal test goes
  through all parts of a tree and evaluation through its items and values only, so the two meet one
  level at a time (`Run.mapM_ite_tooDeep`).
-/

namespace MiniLisp

/-! ## Heights -/

theorem foldr_max_le_iff {ns : List Nat} {n : Nat} : ns.foldr max 0 ≤ n ↔ ∀ m ∈ ns, m ≤ n := by
  induction ns with
  | nil => simp
  | cons m ns ih => rw [List.foldr_cons, Nat.max_le, ih, List.forall_mem_cons]

namespace Tree

variable {α : Type}

/-- How many levels of evaluation a literal tree takes: one more than its items, or than the values
of its entries. -/
def height : Tree α → Nat :=
  fold {
    atom := fun _ => 1
    list := fun items => 1 + items.foldr max 0
    map := fun _ value rest => 1 + (value :: rest.map Prod.snd).foldr max 0
    leaf := fun _ => 1 }

theorem isLiteral_list (ts : List (Tree α)) :
    (Tree.list ts).isLiteral = ts.all Tree.isLiteral := by
  simp [isLiteral]

theorem isLiteral_map (key value : Tree α) (rest : List (Tree α × Tree α)) :
    (Tree.map key value rest).isLiteral =
      (key.isLiteral && value.isLiteral && rest.all fun e => e.1.isLiteral && e.2.isLiteral) := by
  simp [isLiteral, Function.comp_def]

theorem height_list (ts : List (Tree α)) :
    (Tree.list ts).height = 1 + (ts.map height).foldr max 0 := by
  simp only [height, fold_list]

theorem height_map (key value : Tree α) (rest : List (Tree α × Tree α)) :
    (Tree.map key value rest).height =
      1 + (value.height :: rest.map fun e => e.2.height).foldr max 0 := by
  simp only [height, fold_map, List.map_map, Function.comp_def]

theorem height_pos (t : Tree α) : 0 < t.height := by
  cases t with
  | list ts => rw [height_list]; omega
  | map key value rest => rw [height_map]; omega
  | _ => exact Nat.one_pos

theorem height_list_le_iff {ts : List (Tree α)} {n : Nat} :
    (Tree.list ts).height ≤ n + 1 ↔ ∀ t ∈ ts, t.height ≤ n := by
  rw [height_list, Nat.add_comm, Nat.add_le_add_iff_right, foldr_max_le_iff, List.forall_mem_map]

theorem height_map_le_iff {key value : Tree α} {rest : List (Tree α × Tree α)} {n : Nat} :
    (Tree.map key value rest).height ≤ n + 1 ↔ value.height ≤ n ∧ ∀ e ∈ rest, e.2.height ≤ n := by
  rw [height_map, Nat.add_comm, Nat.add_le_add_iff_right, foldr_max_le_iff, List.forall_mem_cons,
    List.forall_mem_map]

end Tree

/-! ## Evaluation -/

namespace Run

variable {α β : Type}

theorem ite_tooDeep_bind (c : Prop) [Decidable c] (a : α) (f : α → Run β) :
    (if c then pure a else tooDeep) >>= f = if c then f a else tooDeep := by
  split <;> rfl

/-- If each part is handed on under a condition, and is too deep otherwise, then the parts together
are handed on if they all meet it. -/
theorem mapM_ite_tooDeep {c : α → Prop} [DecidablePred c] {f : α → Run α} {xs : List α}
    (h : ∀ x ∈ xs, f x = if c x then pure x else tooDeep) :
    xs.mapM f = if ∀ x ∈ xs, c x then pure xs else tooDeep := by
  induction xs with
  | nil => simp
  | cons x xs ih =>
    obtain ⟨hx, hxs⟩ := List.forall_mem_cons.1 h
    rw [List.mapM_cons, hx, ite_tooDeep_bind, ih hxs, ite_tooDeep_bind]
    simp only [List.forall_mem_cons, ite_and]

end Run

/-- **A literal tree evaluates to itself**, or there is not depth enough for it. -/
theorem evaluate_of_isLiteral {t : Value} (h : t.isLiteral = true) (room : Nat) (scope : Scope) :
    evaluate room t scope = if t.height ≤ room then pure t else Run.tooDeep := by
  induction room generalizing t with
  | zero => rw [if_neg (Nat.not_le.2 t.height_pos), evaluate]
  | succ room ih =>
    rw [evaluate]
    cases t with
    | atom a =>
      have hsymbol : a.isSymbol = false := by simpa [Tree.isLiteral, Atom.isLiteral] using h
      have hheight : (Tree.atom a : Value).height ≤ room + 1 := Nat.succ_le_succ (Nat.zero_le room)
      rw [evaluateOnce, hsymbol, if_pos hheight]
      rfl
    | list ts =>
      cases ts with
      | nil =>
        have hheight : (Tree.list [] : Value).height ≤ room + 1 := by
          simp [Tree.height_list_le_iff]
        rw [evaluateOnce, if_pos hheight]
      | cons head args =>
        -- the head is literal with the rest, so the list is data
        have hparts : ∀ t ∈ head :: args, t.isLiteral = true := by
          rwa [Tree.isLiteral_list, List.all_eq_true] at h
        have hall : evaluateAll (evaluate room) scope (head :: args) =
            if ∀ t ∈ head :: args, t.height ≤ room then pure (head :: args) else Run.tooDeep :=
          Run.mapM_ite_tooDeep fun t ht => ih (hparts t ht)
        rw [evaluateOnce, if_pos (hparts head List.mem_cons_self), hall, Run.ite_tooDeep_bind]
        simp only [Tree.height_list_le_iff]
    | map key value rest =>
      simp only [Tree.isLiteral_map, Bool.and_eq_true, List.all_eq_true] at h
      obtain ⟨⟨-, hvalue⟩, hrest⟩ := h
      have hentries : evaluateEntries (evaluate room) scope rest =
          if ∀ e ∈ rest, e.2.height ≤ room then pure rest else Run.tooDeep := by
        refine Run.mapM_ite_tooDeep fun e he => ?_
        rw [ih (hrest e he).2, Run.ite_tooDeep_bind]
      rw [evaluateOnce, ih hvalue, Run.ite_tooDeep_bind, hentries, Run.ite_tooDeep_bind]
      simp only [Tree.height_map_le_iff, ite_and]
    | leaf f => cases h

/-- **Literal trees are fixed points of evaluation.** In every scope and under all limits, whatever
has been done before, a literal tree takes no step. It evaluates to itself if it is no higher than the
depth limit, and is too deep otherwise. -/
theorem evaluate_literal {t : Value} (h : t.isLiteral = true) (scope : Scope) (limits : Limits)
    (p : Progress) :
    let run := Run.evaluate t scope limits p
    run.2.steps = p.steps ∧
      run.1 = if t.height ≤ limits.depth then .ok t else .error (.depthExceeded limits.depth) := by
  intro run
  have hrun : run = evaluate limits.depth.toNat t scope limits p := rfl
  -- a depth limit below one leaves no room, and every tree needs some
  have hpos := t.height_pos
  rw [hrun, evaluate_of_isLiteral h]
  by_cases hheight : t.height ≤ limits.depth.toNat
  · rw [if_pos hheight, if_pos (by omega)]
    exact ⟨rfl, rfl⟩
  · rw [if_neg hheight, if_neg (by omega)]
    exact ⟨rfl, rfl⟩

/-- A map whose value is a list of a numeral: it needs three levels, and its key, which is higher,
none. With no steps to take it evaluates to itself at depth three, and is too deep at depth two. -/
theorem evaluate_literal_nested :
    let key : Value := .list [.list [.list [.atom (Atom.quoted "k")]]]
    let t : Value := .map key (.list [.atom (Atom.bare "1")]) []
    let run (depth : Int) := Run.evaluate t (Scope.standard 0) ⟨some 0, depth, .ok 1⟩ .start
    t.isLiteral = true ∧ t.height = 3 ∧ key.height = 4 ∧
      ((run 3).2.steps = 0 ∧ (run 3).1 = .ok t) ∧
      (run 2).2.steps = 0 ∧ (run 2).1 = .error (.depthExceeded 2) := by
  intro key t run
  have h : t.isLiteral = true := rfl
  exact ⟨h, rfl, rfl, evaluate_literal h _ ⟨some 0, 3, .ok 1⟩ .start,
    evaluate_literal h _ ⟨some 0, 2, .ok 1⟩ .start⟩

end MiniLisp
