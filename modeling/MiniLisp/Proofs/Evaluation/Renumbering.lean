import MiniLisp.Proofs.Evaluation.Invariant
import MiniLisp.Proofs.Evaluation.Scoping

/-!
# The serial numbers of closures

A closure gets its serial number when it is made, from a counter that goes on through a session. So
the closures that a run makes have other numbers later than they would have had earlier, and nothing
else about them is different. One value is another **renumbered** if the two are equal but for the
serial numbers of closures, and these belong together one to one (`Value.Renumbered`).

* `Value.Made k`: the serial numbers in a value are among the first `k`, so that the value can have
  been made by the time the counter is at `k`. Evaluation keeps this (`Invariant.made`).
* `Identities.beyond`: which serial numbers belong together if the counter is at one place for the
  first run and at another for the second.
* `Value.renumbered_refl`: such a value is itself renumbered, if old closures keep their numbers.
* `evaluate_renumbered`: **renumbered expressions in renumbered scopes have renumbered values**, and
  print the same.
-/

namespace MiniLisp

/-! ## Values that have been made -/

/-- The serial numbers in the function are among the first `k`. -/
inductive Callable.Made (k : Nat) : Callable → Prop
  | builtin (copy : Nat) (op : Builtin) : Made k (.builtin copy op)
  | closure {serial : Nat} {params : List Text} {body : Value} {scope : Scope}
      (hserial : serial < k) (hbody : Tree.All (fun _ => True) (Callable.Made k) body)
      (hscope : ∀ frame ∈ scope.frame :: scope.outer, ∀ b ∈ frame,
        Tree.All (fun _ => True) (Callable.Made k) b.2) :
      Made k (.closure serial params body scope)

/-- The serial numbers in the value are among the first `k`. -/
abbrev Value.Made (k : Nat) : Value → Prop := Tree.All (fun _ => True) (Callable.Made k)

/-- The serial numbers in everything that the scope holds are among the first `k`. -/
abbrev Scope.Made (k : Nat) : Scope → Prop := Environment.All (Value.Made k)

theorem Value.Made.mono {k k' : Nat} (hle : k ≤ k') {v : Value} (h : v.Made k) : v.Made k' := by
  induction v using Value.induct with
  | atom a => exact .atom trivial
  | list ts ih =>
    cases h with
    | list hts =>
    exact .list fun t ht => ih t ht (hts t ht)
  | map key value rest ihkey ihvalue ih =>
    cases h with
    | map hkey hvalue hkeys hvalues =>
    exact .map (ihkey hkey) (ihvalue hvalue) (fun e he => (ih e he).1 (hkeys e he))
      fun e he => (ih e he).2 (hvalues e he)
  | builtin copy op => exact .leaf (.builtin copy op)
  | closure serial params body σ ihbody ihscope =>
    cases h with
    | leaf hf =>
    cases hf with
    | closure hserial hbody hscope =>
    exact .leaf (.closure (Nat.lt_of_lt_of_le hserial hle) (ihbody hbody) fun frame hframe b hb =>
      ihscope frame hframe b hb (hscope frame hframe b hb))

theorem Callable.Made.mono {k k' : Nat} (hle : k ≤ k') {f : Callable} (h : f.Made k) :
    f.Made k' := by
  have hleaf : Value.Made k (.leaf f) := .leaf h
  cases hleaf.mono hle with
  | leaf h => exact h

/-- Evaluation uses only closures that have been made. -/
def Invariant.made : Invariant where
  atom _ := True
  callable := Callable.Made
  wellFormed _ := trivial
  mono hle hf := hf.mono hle
  builtin := .builtin
  closure | .closure _ hbody hscope => ⟨hbody, hscope⟩
  newClosure _ _ hbody hscope :=
    .closure (Nat.lt_succ_self _) (Value.Made.mono (Nat.le_succ _) hbody) fun frame hframe b hb =>
      Value.Made.mono (Nat.le_succ _) (hscope frame hframe b hb)

/-! ## Renumbering -/

/-- Serial numbers below `k` stand for themselves, and those from `m` on for those from `n` on. -/
def Identities.beyond {k m n : Nat} (hm : k ≤ m) (hn : k ≤ n) : Identities where
  rel s s' := s = s' ∧ s < k ∨ ∃ j, s = m + j ∧ s' = n + j
  eq_iff := by
    rintro s s' t t' (⟨rfl, hs⟩ | ⟨i, rfl, rfl⟩) (⟨rfl, ht⟩ | ⟨j, rfl, rfl⟩) <;> omega

theorem Identities.beyond_self {k m n : Nat} (hm : k ≤ m) (hn : k ≤ n) {s : Nat} (hs : s < k) :
    (Identities.beyond hm hn).rel s s := .inl ⟨rfl, hs⟩

theorem Identities.beyond_add {k m n : Nat} (hm : k ≤ m) (hn : k ≤ n) (j : Nat) :
    (Identities.beyond hm hn).rel (m + j) (n + j) := .inr ⟨j, rfl, rfl⟩

/-- The same name, with related values. -/
inductive RelatedBinding {β γ : Type} (r : β → γ → Prop) : Text × β → Text × γ → Prop
  | mk (name : Text) {b : β} {c : γ} (h : r b c) : RelatedBinding r (name, b) (name, c)

/-- The same function, up to serial numbers. -/
inductive Callable.Renumbered (ids : Identities) : Callable → Callable → Prop
  | builtin (copy : Nat) (op : Builtin) :
      Callable.Renumbered ids (.builtin copy op) (.builtin copy op)
  | closure {serial serial' : Nat} (params : List Text) {body body' : Value} {σ τ : Scope}
      (hserial : ids.rel serial serial')
      (hbody : Tree.Related (Callable.Renumbered ids) body body')
      (hscope : List.Forall₂
        (List.Forall₂ (RelatedBinding (Tree.Related (Callable.Renumbered ids))))
        (σ.frame :: σ.outer) (τ.frame :: τ.outer)) :
      Callable.Renumbered ids (.closure serial params body σ) (.closure serial' params body' τ)

/-- Equal up to serial numbers. -/
def Value.Renumbered (ids : Identities) : Value → Value → Prop :=
  Tree.Related (Callable.Renumbered ids)

/-- The same names in the same frames, with values that are equal up to serial numbers. -/
def Scope.Renumbered (ids : Identities) (σ τ : Scope) : Prop :=
  List.Forall₂ (List.Forall₂ (RelatedBinding (Value.Renumbered ids))) (σ.frame :: σ.outer)
    (τ.frame :: τ.outer)

/-- **What has been made is itself renumbered**, if its closures keep their numbers. -/
theorem Value.renumbered_refl {ids : Identities} {k : Nat} (hids : ∀ n < k, ids.rel n n)
    {v : Value} (h : v.Made k) : v.Renumbered ids v := by
  induction v using Value.induct with
  | atom a => exact .atom a
  | list ts ih =>
    cases h with
    | list hts =>
    exact .list (List.forall₂_same.2 fun t ht => ih t ht (hts t ht))
  | map key value rest ihkey ihvalue ih =>
    cases h with
    | map hkey hvalue hkeys hvalues =>
    refine .map (ihkey hkey) (ihvalue hvalue) (List.forall₂_same.2 fun e he => ?_)
    exact ⟨(ih e he).1 (hkeys e he), (ih e he).2 (hvalues e he)⟩
  | builtin copy op => exact .leaf (.builtin copy op)
  | closure serial params body σ ihbody ihscope =>
    cases h with
    | leaf hf =>
    cases hf with
    | closure hserial hbody hscope =>
    refine .leaf (.closure params (hids serial hserial) (ihbody hbody) ?_)
    refine List.forall₂_same.2 fun frame hframe => List.forall₂_same.2 fun b hb => .mk b.1 ?_
    exact ihscope frame hframe b hb (hscope frame hframe b hb)

namespace Assoc

variable {β γ : Type} {r : β → γ → Prop} {bs : Bindings β} {cs : Bindings γ}

theorem get?_related (h : List.Forall₂ (RelatedBinding r) bs cs) (name : Text) :
    Option.Rel r (get? name bs) (get? name cs) := by
  induction h with
  | nil => exact .none
  | cons hb _ ih =>
    obtain ⟨name', hvalue⟩ := hb
    by_cases hname : name' = name
    · simpa [get?, hname] using hvalue
    · simpa [get?, hname] using ih

theorem put_related {b : β} {c : γ} (h : List.Forall₂ (RelatedBinding r) bs cs) (key : Text)
    (hb : r b c) : List.Forall₂ (RelatedBinding r) (put key b bs) (put key c cs) := by
  induction h with
  | nil => exact .cons (.mk key hb) .nil
  | cons hb' hrest ih =>
    obtain ⟨name, hvalue⟩ := hb'
    rw [put, put]
    split
    · exact .cons (.mk name hb) hrest
    · exact .cons (.mk name hvalue) ih

/-- Related values put under the same names make related frames. -/
theorem ofList_related
    (h : List.Forall₂ (fun b c => b.1 = c.1 ∧ r b.2 c.2) bs cs) :
    List.Forall₂ (RelatedBinding r) (ofList bs) (ofList cs) := by
  suffices hfold : ∀ (frame : Bindings β) (frame' : Bindings γ),
      List.Forall₂ (RelatedBinding r) frame frame' → List.Forall₂ (RelatedBinding r)
        (bs.foldl (fun frame b => put b.1 b.2 frame) frame)
        (cs.foldl (fun frame c => put c.1 c.2 frame) frame') from hfold [] [] .nil
  induction h with
  | nil => exact fun frame frame' hframe => hframe
  | @cons b c bs cs hb _ ih =>
    intro frame frame' hframe
    rw [List.foldl_cons, List.foldl_cons]
    refine ih _ _ ?_
    rw [← hb.1]
    exact put_related hframe b.1 hb.2

end Assoc

theorem Scope.Renumbered.lookup {ids : Identities} {σ τ : Scope} (h : σ.Renumbered ids τ)
    (name : Text) : Option.Rel (Value.Renumbered ids) (σ.lookup? name) (τ.lookup? name) := by
  obtain ⟨frame, outer⟩ := σ
  obtain ⟨frame', outer'⟩ := τ
  obtain ⟨hframe, houter⟩ : List.Forall₂ (RelatedBinding (Value.Renumbered ids)) frame frame' ∧
      List.Forall₂ (List.Forall₂ (RelatedBinding (Value.Renumbered ids))) outer outer' := by
    cases h with
    | cons hframe houter => exact ⟨hframe, houter⟩
  clear h
  induction houter generalizing frame frame' with
  | nil =>
    rw [Environment.lookup?_single, Environment.lookup?_single]
    exact Assoc.get?_related hframe name
  | @cons next next' outer outer' hnext _ ih =>
    have hfound := Assoc.get?_related hframe name
    rw [Environment.lookup?_cons, Environment.lookup?_cons]
    generalize Assoc.get? name frame = x, Assoc.get? name frame' = y at hfound
    cases hfound with
    | some hv => exact .some hv
    | none => exact ih next next' hnext

/-- Renumbered values and scopes take each other's place in evaluation. -/
def Correspondence.renumbered (ids : Identities) : Correspondence where
  callable := Callable.Renumbered ids
  scope := Scope.Renumbered ids
  corresponds := by
    rintro f g (⟨copy, op⟩ | ⟨params, -, hbody, hscope⟩)
    · exact .builtin copy copy op
    · exact .closure _ _ params hbody hscope
  same_eq := by
    rintro f g f' g' (⟨copy, op⟩ | ⟨params, hserial, -, -⟩)
      (⟨copy', op'⟩ | ⟨params', hserial', -, -⟩)
    · rfl
    · rfl
    · rfl
    · simp only [Callable.same, ids.eq_iff hserial hserial']
  lookup := fun h => h.lookup
  extend := fun h hbs => .cons (Assoc.ofList_related hbs) h

/-- The two have counted the same steps, and printed the same since they had printed `base` and
`base'`; their next closures belong together. -/
structure Progress.Renumbered (ids : Identities) (base base' : List Text) (p q : Progress) :
    Prop where
  steps : p.steps = q.steps
  printed : ∃ new, p.printed = new ++ base ∧ q.printed = new ++ base'
  closures : ∀ k, ids.rel (p.closures + k) (q.closures + k)

theorem Progress.inStep_renumbered (ids : Identities) (base base' : List Text) :
    InStep (Progress.Renumbered ids base base') where
  steps h := h.steps
  counted h := ⟨congrArg Nat.succ h.steps, h.printed, h.closures⟩
  record _ h := ⟨h.steps, h.printed, h.closures⟩
  printed t h := by
    obtain ⟨new, hp, hq⟩ := h.printed
    exact ⟨h.steps, ⟨t :: new, congrArg (List.cons t) hp, congrArg (List.cons t) hq⟩, h.closures⟩
  closures h := ⟨h.steps, h.printed, ids.rel_succ h.closures⟩

/-- **Renumbered expressions in renumbered scopes have renumbered values**, or fail with the same
error, and what they print is the same. -/
theorem evaluate_renumbered {ids : Identities} {base base' : List Text} {e e' : Value}
    {σ τ : Scope} {p q : Progress} (he : e.Renumbered ids e') (hscope : σ.Renumbered ids τ)
    (hp : p.Renumbered ids base base' q) (l : Limits) :
    Agree Eq (Value.Renumbered ids) (Run.evaluate e σ l p).1 (Run.evaluate e' τ l q).1 ∧
      (Run.evaluate e σ l p).2.Renumbered ids base base' (Run.evaluate e' τ l q).2 := by
  have hnew {p q : Progress} (h : p.Renumbered ids base base' q) (params : List Text)
      (body body' : Value) (σ τ : Scope) (hbody : body.Renumbered ids body')
      (hscope : σ.Renumbered ids τ) : Callable.Renumbered ids (.closure p.closures params body σ)
        (.closure q.closures params body' τ) := .closure params (h.closures 0) hbody hscope
  exact Comparison.evaluate_lockstep (C := .renumbered ids)
    (Progress.inStep_renumbered ids base base') hnew he hscope hp l

end MiniLisp
