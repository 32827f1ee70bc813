import MiniLisp.Proofs.Evaluation.Lockstep
import MiniLisp.Proofs.Evaluation.Scope

/-!
# Evaluation sees a scope through its names only

Two scopes are **alike** if they bind the same names to values that are alike, however the bindings
are spread over frames and whatever is hidden behind them. Two values are alike if they are equal up
to the scopes that their closures remember, which in turn have to be alike. Functions are compared
by identity, so being equal includes being the same function. Evaluations of their own do not share
the serial numbers that tell closures apart, so `Identities` says which of them stand for the same
closure.

**Evaluation in scopes that are alike ends alike**, since values and scopes that are alike take each
other's place in it (`Correspondence.alike`, `Comparison.alike`). With `Identities.same` every value
is alike to itself (`Value.alike_refl`), which makes this a statement about one expression in two
scopes.
-/

namespace MiniLisp

/-- Which serial numbers on either side belong to the same closure: one to one. -/
structure Identities where
  rel : Nat → Nat → Prop
  eq_iff : ∀ {s s' t t'}, rel s s' → rel t t' → (s = t ↔ s' = t')

/-- Every closure has the same serial number on both sides. -/
def Identities.same : Identities := ⟨Eq, by rintro s _ t _ rfl rfl; rfl⟩

/-- If the serial numbers from here on belong together, so do those after the next one. -/
theorem Identities.rel_succ (ids : Identities) {m n : Nat} (h : ∀ k, ids.rel (m + k) (n + k))
    (k : Nat) : ids.rel (m + 1 + k) (n + 1 + k) := by
  have hnext := h (1 + k)
  rw [← Nat.add_assoc, ← Nat.add_assoc] at hnext
  exact hnext

/-- The same function, up to what closures find in their scopes. -/
inductive Callable.Alike (ids : Identities) : Callable → Callable → Prop
  | builtin (copy : Nat) (op : Builtin) : Callable.Alike ids (.builtin copy op) (.builtin copy op)
  | closure {serial serial' : Nat} (params : List Text) {body body' : Value} {σ τ : Scope}
      (hserial : ids.rel serial serial') (hbody : Tree.Related (Callable.Alike ids) body body')
      (hscope : ∀ name, Option.Rel (Tree.Related (Callable.Alike ids)) (σ.lookup? name)
        (τ.lookup? name)) :
      Callable.Alike ids (.closure serial params body σ) (.closure serial' params body' τ)

/-- Equal up to the scopes of closures. -/
def Value.Alike (ids : Identities) : Value → Value → Prop := Tree.Related (Callable.Alike ids)

/-- The same names have values, and these are alike. -/
def Scope.Alike (ids : Identities) (σ τ : Scope) : Prop :=
  ∀ name, Option.Rel (Value.Alike ids) (σ.lookup? name) (τ.lookup? name)

namespace Assoc

variable {β γ : Type} {r : β → γ → Prop}

theorem get?_put_related {bs : Bindings β} {cs : Bindings γ} {b : β} {c : γ}
    (h : ∀ name, Option.Rel r (get? name bs) (get? name cs)) (key : Text) (hb : r b c)
    (name : Text) : Option.Rel r (get? name (put key b bs)) (get? name (put key c cs)) := by
  rw [get?_put, get?_put]
  split
  · exact .some hb
  · exact h name

/-- Related values put under the same names are found under the same names. -/
theorem get?_ofList_related {bs : List (Text × β)} {cs : List (Text × γ)}
    (h : List.Forall₂ (fun b c => b.1 = c.1 ∧ r b.2 c.2) bs cs) (name : Text) :
    Option.Rel r (get? name (ofList bs)) (get? name (ofList cs)) := by
  suffices hfold : ∀ (frame : Bindings β) (frame' : Bindings γ),
      (∀ name, Option.Rel r (get? name frame) (get? name frame')) → Option.Rel r
        (get? name (bs.foldl (fun frame b => put b.1 b.2 frame) frame))
        (get? name (cs.foldl (fun frame c => put c.1 c.2 frame) frame')) from
    hfold [] [] fun _ => .none
  induction h with
  | nil => exact fun frame frame' hframe => hframe name
  | @cons b c bs cs hb _ ih =>
    intro frame frame' hframe
    rw [List.foldl_cons, List.foldl_cons]
    refine ih _ _ ?_
    rw [← hb.1]
    exact get?_put_related hframe b.1 hb.2

end Assoc

/-- Scopes that are alike stay so in a new frame with values that are alike. -/
theorem Scope.Alike.extend {ids : Identities} {σ τ : Scope} (h : σ.Alike ids τ)
    {bs cs : Bindings Value}
    (hbs : List.Forall₂ (fun b c => b.1 = c.1 ∧ Value.Alike ids b.2 c.2) bs cs) :
    Scope.Alike ids (σ.extend bs) (τ.extend cs) := by
  intro name
  have hframe := Assoc.get?_ofList_related hbs name
  rw [Environment.lookup?_extend, Environment.lookup?_extend]
  generalize Assoc.get? name (Assoc.ofList bs) = x, Assoc.get? name (Assoc.ofList cs) = y at hframe
  cases hframe with
  | some hv => exact .some hv
  | none => exact h name

/-- Values and scopes that are alike take each other's place in evaluation. -/
def Correspondence.alike (ids : Identities) : Correspondence where
  callable := Callable.Alike ids
  scope := Scope.Alike ids
  corresponds := by
    rintro f g (⟨copy, op⟩ | ⟨params, -, hbody, hscope⟩)
    · exact .builtin copy copy op
    · exact .closure _ _ params hbody hscope
  same_eq := by
    rintro f g f' g' (⟨copy, op⟩ | ⟨params, hserial, -, -⟩)
      (⟨copy', op'⟩ | ⟨params', hserial', -, -⟩)
    · rfl
    · rfl
    · rfl
    · simp only [Callable.same, ids.eq_iff hserial hserial']
  lookup := fun h => h
  extend := fun h hbs => h.extend hbs

/-- The same progress, up to the serial numbers of the closures that will be made. -/
structure Progress.Alike (ids : Identities) (p q : Progress) : Prop where
  steps : p.steps = q.steps
  printed : p.printed = q.printed
  events : p.events = q.events
  closures : ∀ k, ids.rel (p.closures + k) (q.closures + k)

theorem Progress.Alike.output_eq {ids : Identities} {p q : Progress} (h : p.Alike ids q) :
    p.output = q.output := by
  rw [output, output, h.printed]

theorem Progress.inStep_alike (ids : Identities) : InStep (Progress.Alike ids) where
  steps h := h.steps
  counted h := ⟨congrArg Nat.succ h.steps, h.printed, h.events, h.closures⟩
  record events h := ⟨h.steps, h.printed, congrArg (events ++ ·) h.events, h.closures⟩
  printed t h := ⟨h.steps, congrArg (List.cons t) h.printed, h.events, h.closures⟩
  closures h := ⟨h.steps, h.printed, h.events, ids.rel_succ h.closures⟩

/-- The next closures are alike, if their bodies and scopes are. -/
theorem Progress.Alike.newClosure {ids : Identities} {p q : Progress} (h : p.Alike ids q)
    (params : List Text) (body body' : Value) (σ τ : Scope) (hbody : body.Alike ids body')
    (hscope : σ.Alike ids τ) :
    Callable.Alike ids (.closure p.closures params body σ) (.closure q.closures params body' τ) :=
  .closure params (h.closures 0) hbody hscope

/-- Runs with values and scopes that are alike. -/
def Comparison.alike (ids : Identities) : Comparison (.alike ids) :=
  .lockstep (Progress.inStep_alike ids) Progress.Alike.newClosure

end MiniLisp
