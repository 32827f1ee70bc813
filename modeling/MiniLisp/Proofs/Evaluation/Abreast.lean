import MiniLisp.Proofs.Evaluation.Progress

/-!
# Runs abreast of each other

Two programs that are written differently and mean the same do not run in lockstep: one of them
counts a step more here and there, makes a closure for its own use, or evaluates a part one level
further in. None of this can be seen from inside, **unless one of the two is stopped by a limit**.
So runs go **abreast** if, unless one is stopped, they end alike: both with values that take each
other's place, or both by the same error, and they have printed the same.

* `Run.Abreast R S r x y`: started from progress related by `R`, the two end alike, and if they
  succeed then in progress related by `S`. A step, a note or a closure that only one side makes
  changes the relation (`step_left`, `note_left`, `note_right`, `newClosure_left`).
* `Progress.Apart`: so many steps ahead of the other side. What both sides do keeps it, so it gives a
  comparison (`Comparison.abreast`), and evaluation goes abreast however many steps have been counted
  before and however much depth is left (`Comparison.evaluators_abreast`).
* `EndAlike.results`: what there is to see of all this in the end.
* `application_stopped`: an application needs two levels, one for itself and one for its head.
-/

namespace MiniLisp

/-- The error of a run that was stopped by a limit. -/
inductive Error.IsLimit : Error → Prop
  | budgetExceeded (budget : Int) : IsLimit (.budgetExceeded budget)
  | depthExceeded (limit : Int) : IsLimit (.depthExceeded limit)

/-- The outcome of a run that was stopped by a limit. -/
def Stopped {α : Type} (x : Except Error α) : Prop := ∃ e : Error, e.IsLimit ∧ x = .error e

theorem not_stopped_of_ok {α : Type} {x : Except Error α} {a : α} (h : x = .ok a) :
    ¬ Stopped x := by
  rintro ⟨e, -, he⟩
  exact nomatch h.symm.trans he

/-- Two runs have ended alike, or one of them was stopped by a limit. -/
inductive EndAlike {α β : Type} (S : Progress → Progress → Prop) (r : α → β → Prop) :
    Except Error α × Progress → Except Error β × Progress → Prop
  | ok {a : α} {b : β} {p q : Progress} (hresult : r a b) (hprogress : S p q) :
      EndAlike S r (.ok a, p) (.ok b, q)
  | error (e : Error) {p q : Progress} (hprinted : p.printed = q.printed) :
      EndAlike S r (.error e, p) (.error e, q)
  | left {x : Except Error α × Progress} {y : Except Error β × Progress} (h : Stopped x.1) :
      EndAlike S r x y
  | right {x : Except Error α × Progress} {y : Except Error β × Progress} (h : Stopped y.1) :
      EndAlike S r x y

/-- From progress related by `R` the two runs end alike, and succeed in progress related by `S`. -/
def Run.Abreast {α β : Type} (R S : Progress → Progress → Prop) (r : α → β → Prop) (x : Run α)
    (y : Run β) : Prop :=
  ∀ (l : Limits) (p q : Progress), R p q → EndAlike S r (x l p) (y l q)

namespace Run

variable {α β γ δ : Type} {r : α → β → Prop} {s : γ → δ → Prop} {R S T : Progress → Progress → Prop}

/-- A run that was stopped stays so, whatever was to come after it. -/
theorem stopped_bind {x : Run α} {f : α → Run γ} {l : Limits} {p : Progress}
    (h : Stopped (x l p).1) : Stopped ((x >>= f) l p).1 := by
  obtain ⟨e, he, hx⟩ := h
  rcases hxp : x l p with ⟨e' | a, p'⟩
  · rw [hxp] at hx
    cases hx
    rw [bind_apply, hxp]
    exact ⟨e, he, rfl⟩
  · rw [hxp] at hx
    cases hx

/-- Either a step stops the run, or it is counted. -/
theorem step_stopped_or (l : Limits) (p : Progress) :
    Stopped (step l p).1 ∨ step l p = (.ok (), p.counted) := by
  rcases step_cases l p with ⟨b, -, -, hstep⟩ | ⟨-, hstep⟩
  · rw [hstep]
    exact .inl ⟨_, .budgetExceeded b, rfl⟩
  · exact .inr hstep

namespace Abreast

theorem pure {a : α} {b : β} (h : r a b) : Abreast R R r (Pure.pure a) (Pure.pure b) :=
  fun _ _ _ hpq => .ok h hpq

theorem bind {x : Run α} {y : Run β} {f : α → Run γ} {g : β → Run δ} (hx : Abreast R S r x y)
    (hf : ∀ a b, r a b → Abreast S T s (f a) (g b)) : Abreast R T s (x >>= f) (y >>= g) := by
  intro l p q hpq
  have hends := hx l p q hpq
  by_cases hleft : Stopped (x l p).1
  · exact .left (stopped_bind hleft)
  by_cases hright : Stopped (y l q).1
  · exact .right (stopped_bind hright)
  rw [bind_apply, bind_apply]
  generalize x l p = xp, y l q = yp at hends hleft hright
  cases hends with
  | ok hresult hprogress => exact hf _ _ hresult l _ _ hprogress
  | error e hprinted => exact .error e hprinted
  | left h => exact absurd h hleft
  | right h => exact absurd h hright

theorem step (hR : ∀ p q, R p q → S p.counted q.counted) : Abreast R S Eq Run.step Run.step := by
  intro l p q hpq
  rcases step_stopped_or l p with hstopped | hstep
  · exact .left hstopped
  rcases step_stopped_or l q with hstopped | hstep'
  · exact .right hstopped
  rw [hstep, hstep']
  exact .ok rfl (hR p q hpq)

/-- A step that only the first run takes. -/
theorem step_left {x : Run α} {y : Run β} (hR : ∀ p q, R p q → S p.counted q)
    (h : Abreast S T r x y) : Abreast R T r (do Run.step; x) y := by
  intro l p q hpq
  rcases step_stopped_or l p with hstopped | hstep
  · exact .left (stopped_bind hstopped)
  · rw [bind_apply, hstep]
    exact h l _ _ (hR p q hpq)

/-- Something that only the first run logs. -/
theorem note_left {x : Run α} {y : Run β} {e : Event} (hR : ∀ p q, R p q → S (p.record [e]) q)
    (h : Abreast S T r x y) : Abreast R T r (do Run.note e; x) y :=
  fun l p q hpq => h l _ _ (hR p q hpq)

/-- Something that only the second run logs. -/
theorem note_right {x : Run α} {y : Run β} {e : Event} (hR : ∀ p q, R p q → S p (q.record [e]))
    (h : Abreast S T r x y) : Abreast R T r x (do Run.note e; y) :=
  fun l p q hpq => h l _ _ (hR p q hpq)

/-- A closure that only the first run makes. -/
theorem newClosure_left {x : Nat → Run α} {y : Run β}
    (hR : ∀ p q, R p q → S { p with closures := p.closures + 1 } q)
    (h : ∀ serial, Abreast S T r (x serial) y) : Abreast R T r (do x (← Run.newClosure)) y :=
  fun l p q hpq => h p.closures l _ _ (hR p q hpq)

end Abreast

end Run

/-! ## So many steps apart -/

/-- The serial numbers at which two runs can go on, so that the closures that they make from there
on take each other's place. -/
structure Correspondence.Serials (C : Correspondence) where
  next : Nat → Nat → Prop
  succ : ∀ {m n}, next m n → next (m + 1) (n + 1)
  closure : ∀ {m n}, next m n → ∀ params body body' σ τ, C.value body body' → C.scope σ τ →
    C.callable (.closure m params body σ) (.closure n params body' τ)

/-- The same serial numbers on both sides. -/
def Correspondence.Serials.same : equality.Serials where
  next := Eq
  succ := congrArg (· + 1)
  closure := by
    rintro m _ rfl params body body' σ τ hbody hscope
    rw [equality_value.1 hbody, show σ = τ from hscope]
    rfl

variable {C : Correspondence} (N : C.Serials)

/-- The first is `k` steps ahead, and they have printed the same; what they logged is no matter. -/
structure Progress.Apart (k : Nat) (p q : Progress) : Prop where
  steps : p.steps = q.steps + k
  printed : p.printed = q.printed
  closures : N.next p.closures q.closures

namespace Progress.Apart

variable {N} {k : Nat} {p q : Progress} (h : p.Apart N k q)
include h

theorem counted : p.counted.Apart N k q.counted :=
  ⟨by simp only [Progress.counted, h.steps]; omega, h.printed, h.closures⟩

theorem counted_left : p.counted.Apart N (k + 1) q :=
  ⟨congrArg (· + 1) h.steps, h.printed, h.closures⟩

theorem record (events events' : List Event) : (p.record events).Apart N k (q.record events') :=
  ⟨h.steps, h.printed, h.closures⟩

end Progress.Apart

theorem Progress.output_congr {p q : Progress} (h : p.printed = q.printed) :
    p.output = q.output := by
  rw [output, output, h]

/-- What there is to see of two runs that end alike, unless one of them is stopped by a limit. -/
theorem EndAlike.results {α β : Type} {r : α → β → Prop} {N : C.Serials} {k : Nat}
    {x : Except Error α × Progress} {y : Except Error β × Progress}
    (h : EndAlike (Progress.Apart N k) r x y) (hx : ¬ Stopped x.1) (hy : ¬ Stopped y.1) :
    Agree Eq r x.1 y.1 ∧ x.2.output = y.2.output ∧ ∀ b, y.1 = .ok b → x.2.steps = y.2.steps + k := by
  cases h with
  | ok hresult hprogress =>
    exact ⟨.ok hresult, Progress.output_congr hprogress.printed, fun _ _ => hprogress.steps⟩
  | error e hprinted =>
    refine ⟨.error rfl, Progress.output_congr hprinted, ?_⟩
    rintro b ⟨⟩
  | left h => exact absurd h hx
  | right h => exact absurd h hy

namespace Run.Abreast

variable {N} {k : Nat}

theorem read {r : Callable → Callable → Prop} (t : Text) :
    Abreast (Progress.Apart N k) (Progress.Apart N k) (Tree.Related r) (Run.read t)
      (Run.read t) := by
  intro l p q hpq
  rw [read_apply, read_apply]
  cases ((Source.text t).read l.nesting).1 with
  | ok d => exact .ok (.ofDatum d) (hpq.record _ _)
  | error e => exact .error e hpq.printed

end Run.Abreast

namespace Comparison

/-- Runs of which the first is `k` steps ahead. -/
def abreast (k : Nat) : Comparison C where
  run := Run.Abreast (Progress.Apart N k) (Progress.Apart N k)
  pure := .pure
  bind := .bind
  fail _ _ _ _ hpq := .error _ hpq.printed
  step := .step fun _ _ => .counted
  note _ _ _ _ hpq := .ok rfl (hpq.record _ _)
  printLine _ _ _ _ hpq := .ok rfl ⟨hpq.steps, congrArg (List.cons _) hpq.printed, hpq.closures⟩
  read := .read
  newClosure _ _ _ hpq :=
    .ok (N.closure hpq.closures) ⟨hpq.steps, hpq.printed, N.succ hpq.closures⟩

/-- **Evaluation goes abreast**, also if the second run has more depth to use. -/
theorem evaluators_abreast (k n more : Nat) :
    (abreast N k).Evaluators (MiniLisp.evaluate n) (MiniLisp.evaluate (n + more)) :=
  (abreast N k).evaluate (fun _ _ _ _ _ _ l _ _ _ => .left ⟨_, .depthExceeded l.depth, rfl⟩) n

end Comparison

/-! ## Applications -/

/-- The symbol with this name. -/
def Value.symbol (name : Text) : Value := .atom (Atom.bare name)

section Application

variable {head : Value} (hdata : head.isLiteral = false)
  (hform : SpecialForm.ofHead? head = none) (args : List Value) (scope : Scope)
include hdata hform

theorem evaluate_application (n : Nat) :
    evaluate (n + 1) (.list (head :: args)) scope = (do
      Run.step
      evaluateApplication (evaluate n) scope head args) := by
  simp only [evaluate, evaluateOnce, hdata, hform, Bool.false_eq_true, if_false]

/-- With no depth left for its head, an application is stopped. -/
theorem application_stopped {n : Nat} (hn : n < 2) (l : Limits) (p : Progress) :
    Stopped (evaluate n (.list (head :: args)) scope l p).1 := by
  match n with
  | 0 => exact ⟨_, .depthExceeded l.depth, rfl⟩
  | 1 =>
    rw [evaluate_application hdata hform]
    rcases Run.step_stopped_or l p with hstopped | hstep
    · exact Run.stopped_bind hstopped
    · rw [Run.bind_apply, hstep]
      exact Run.stopped_bind (x := Run.tooDeep) ⟨_, .depthExceeded l.depth, rfl⟩

end Application

end MiniLisp
