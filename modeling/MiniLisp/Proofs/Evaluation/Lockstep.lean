import MiniLisp.Proofs.Evaluation.Progress

/-!
# Runs in lockstep

Two runs under the same limits go in **lockstep** if they start from progress that is in step, and
then end in the same way, with progress that is in step again. What it is for progress to be in step
is left open here; it has to be the same number of steps, and the same actions on both sides have to
keep it (`Progress.InStep`). Then every correspondence in which the next closures on both sides take
each other's place gives a comparison (`Comparison.lockstep`), and **corresponding expressions in
corresponding scopes evaluate in lockstep** (`Comparison.evaluate_lockstep`).
-/

namespace MiniLisp

/-- A relation between the progress of two runs that the same actions on both sides keep. -/
structure Progress.InStep (R : Progress → Progress → Prop) : Prop where
  steps : ∀ {p q}, R p q → p.steps = q.steps
  counted : ∀ {p q}, R p q → R p.counted q.counted
  record : ∀ {p q} events, R p q → R (p.record events) (q.record events)
  printed : ∀ {p q} t, R p q →
    R { p with printed := t :: p.printed } { q with printed := t :: q.printed }
  closures : ∀ {p q}, R p q →
    R { p with closures := p.closures + 1 } { q with closures := q.closures + 1 }

/-- From progress that is in step the two runs end in the same way, and in step. -/
def Run.Lockstep (R : Progress → Progress → Prop) {α β : Type} (r : α → β → Prop) (x : Run α)
    (y : Run β) : Prop :=
  ∀ (l : Limits) (p q : Progress), R p q →
    Agree Eq r (x l p).1 (y l q).1 ∧ R (x l p).2 (y l q).2

namespace Run.Lockstep

variable {R : Progress → Progress → Prop} {α β γ δ : Type} {r : α → β → Prop} {s : γ → δ → Prop}

theorem bind {x : Run α} {y : Run β} {f : α → Run γ} {g : β → Run δ} (hx : Lockstep R r x y)
    (hf : ∀ a b, r a b → Lockstep R s (f a) (g b)) : Lockstep R s (x >>= f) (y >>= g) := by
  intro l p q hpq
  obtain ⟨hagree, hprogress⟩ := hx l p q hpq
  rw [bind_apply, bind_apply]
  generalize x l p = xp, y l q = yp at hagree hprogress
  obtain ⟨xr, p'⟩ := xp
  obtain ⟨yr, q'⟩ := yp
  cases hagree with
  | ok hab => exact hf _ _ hab l p' q' hprogress
  | error he => exact ⟨.error he, hprogress⟩

theorem step (hR : Progress.InStep R) : Lockstep R Eq Run.step Run.step := by
  intro l p q hpq
  have hcounted := hR.counted hpq
  rcases step_cases l p with ⟨b, hb, hover, hstep⟩ | ⟨hwithin, hstep⟩ <;>
    rcases step_cases l q with ⟨c, hc, hover', hstep'⟩ | ⟨hwithin', hstep'⟩
  · obtain rfl : b = c := Option.some.inj (hb.symm.trans hc)
    rw [hstep, hstep']
    exact ⟨.error rfl, hR.record _ hcounted⟩
  -- the same steps are counted under the same budget, so either both are too many or none is
  · have := hwithin' b hb
    have := hR.steps hcounted
    omega
  · have := hwithin c hc
    have := hR.steps hcounted
    omega
  · rw [hstep, hstep']
    exact ⟨.ok rfl, hcounted⟩

theorem read (hR : Progress.InStep R) {q : Callable → Callable → Prop} (t : Text) :
    Lockstep R (Tree.Related q) (Run.read t) (Run.read t) := by
  intro l p p' hp
  rw [read_apply, read_apply]
  refine ⟨?_, hR.record _ hp⟩
  cases ((Source.text t).read l.nesting).1 with
  | ok d => exact .ok (.ofDatum d)
  | error e => exact .error rfl

end Run.Lockstep

namespace Comparison

variable {C : Correspondence} {R : Progress → Progress → Prop} (hR : Progress.InStep R)
  (hnew : ∀ {p q}, R p q → ∀ params body body' σ τ, C.value body body' → C.scope σ τ →
    C.callable (.closure p.closures params body σ) (.closure q.closures params body' τ))

/-- Runs in lockstep, where the next closures take each other's place. -/
def lockstep : Comparison C where
  run := Run.Lockstep R
  pure h _ _ _ hpq := ⟨.ok h, hpq⟩
  bind := .bind
  fail _ _ _ _ hpq := ⟨.error rfl, hpq⟩
  step := .step hR
  note e _ _ _ hpq := ⟨.ok rfl, hR.record [e] hpq⟩
  printLine _ _ _ _ hpq := ⟨.ok rfl, hR.printed _ hpq⟩
  read := .read hR
  newClosure _ _ _ hpq := ⟨.ok (hnew hpq), hR.closures hpq⟩

theorem tooDeep_lockstep :
    (lockstep hR hnew).Evaluators (fun _ _ => Run.tooDeep) (MiniLisp.evaluate 0) :=
  fun _ _ _ _ _ _ _ _ _ hpq => ⟨.error rfl, hR.record [_] hpq⟩

include hR hnew in
/-- **Corresponding expressions in corresponding scopes evaluate in lockstep.** -/
theorem evaluate_lockstep {e e' : Value} {σ τ : Scope} {p q : Progress} (he : C.value e e')
    (hscope : C.scope σ τ) (hpq : R p q) (l : Limits) :
    Agree Eq C.value (Run.evaluate e σ l p).1 (Run.evaluate e' τ l q).1 ∧
      R (Run.evaluate e σ l p).2 (Run.evaluate e' τ l q).2 :=
  (lockstep hR hnew).evaluate (tooDeep_lockstep hR hnew) l.depth.toNat e e' σ τ he hscope l p q hpq

end Comparison

end MiniLisp
