import MiniLisp.Proofs.Evaluation.Progress

/-!
# Steps counted before a run

A run counts its steps on top of those that are counted already, and looks at the count only where
it compares it with the step budget. So **a run that starts with `k` more steps counted, under a
budget that allows for `k` more, does the same** and stays `k` steps ahead to its end
(`evaluate_ahead`). Only the budget that it names, if it runs out of steps, is larger by `k`. What
was logged before makes no difference either.
-/

namespace MiniLisp

/-- The same progress with `k` more steps counted, whatever has been logged. -/
structure Progress.Ahead (k : Nat) (p q : Progress) : Prop where
  steps : p.steps = q.steps + k
  printed : p.printed = q.printed
  closures : p.closures = q.closures

theorem Progress.Ahead.output_eq {k : Nat} {p q : Progress} (h : p.Ahead k q) :
    p.output = q.output := by
  rw [output, output, h.printed]

theorem Progress.Ahead.record {k : Nat} {p q : Progress} (h : p.Ahead k q)
    (events events' : List Event) : (p.record events).Ahead k (q.record events') :=
  ⟨h.steps, h.printed, h.closures⟩

/-- The limits with a budget that allows for `k` more steps. -/
def Limits.raised (l : Limits) (k : Nat) : Limits := { l with budget := l.budget.map (· + k) }

/-- The same error, or the budget exceeded that was raised by `k`. -/
def Error.Raised (l : Limits) (k : Nat) (e e' : Error) : Prop :=
  e = e' ∨ ∃ b, l.budget = some b ∧ e = .budgetExceeded (b + k) ∧ e' = .budgetExceeded b

/-- The first run starts and ends `k` steps ahead of the second, with a budget raised by `k`, and
does the same. -/
def Run.Ahead (k : Nat) {α β : Type} (r : α → β → Prop) (x : Run α) (y : Run β) : Prop :=
  ∀ (l : Limits) (p q : Progress), p.Ahead k q →
    Agree (Error.Raised l k) r (x (l.raised k) p).1 (y l q).1 ∧
      (x (l.raised k) p).2.Ahead k (y l q).2

namespace Run.Ahead

variable {k : Nat} {α β γ δ : Type} {r : α → β → Prop} {s : γ → δ → Prop}

theorem pure {a : α} {b : β} (h : r a b) : Run.Ahead k r (Pure.pure a) (Pure.pure b) :=
  fun _ _ _ hpq => ⟨.ok h, hpq⟩

theorem fail (e : Error) : Run.Ahead k r (Run.fail e) (Run.fail e) :=
  fun _ _ _ hpq => ⟨.error (.inl rfl), hpq⟩

theorem bind {x : Run α} {y : Run β} {f : α → Run γ} {g : β → Run δ} (hx : Run.Ahead k r x y)
    (hf : ∀ a b, r a b → Run.Ahead k s (f a) (g b)) : Run.Ahead k s (x >>= f) (y >>= g) := by
  intro l p q hpq
  obtain ⟨hagree, hprogress⟩ := hx l p q hpq
  rw [bind_apply, bind_apply]
  generalize x (l.raised k) p = xp, y l q = yp at hagree hprogress
  obtain ⟨xr, p'⟩ := xp
  obtain ⟨yr, q'⟩ := yp
  cases hagree with
  | ok hab => exact hf _ _ hab l p' q' hprogress
  | error he => exact ⟨.error he, hprogress⟩

/-- A step is one too many for both runs or for none. -/
theorem step : Run.Ahead k Eq Run.step Run.step := by
  intro l p q hpq
  have hcounted : p.counted.Ahead k q.counted := by
    refine ⟨?_, hpq.printed, hpq.closures⟩
    have := hpq.steps
    simp only [Progress.counted]
    omega
  have hsteps := hcounted.steps
  rcases step_cases (l.raised k) p with ⟨b, hb, hover, hstep⟩ | ⟨hwithin, hstep⟩ <;>
    rcases step_cases l q with ⟨c, hc, hover', hstep'⟩ | ⟨hwithin', hstep'⟩
  · obtain rfl : c + k = b := by simpa [Limits.raised, hc] using hb
    rw [hstep, hstep']
    exact ⟨.error (.inr ⟨c, hc, rfl, rfl⟩), hcounted.record _ _⟩
  · obtain ⟨c, hc, rfl⟩ := Option.map_eq_some_iff.1 hb
    have := hwithin' c hc
    omega
  · have := hwithin (c + k) (by simp [Limits.raised, hc])
    omega
  · rw [hstep, hstep']
    exact ⟨.ok rfl, hcounted⟩

theorem read (t : Text) :
    Run.Ahead k Correspondence.equality.value (Run.read t) (Run.read t) := by
  intro l p q hpq
  have hnesting : (l.raised k).nesting = l.nesting := rfl
  rw [read_apply, read_apply, hnesting]
  refine ⟨?_, hpq.record _ _⟩
  cases ((Source.text t).read l.nesting).1 with
  | ok d => exact .ok (.ofDatum d)
  | error e => exact .error (.inl rfl)

theorem newClosure : Run.Ahead k (fun serial serial' => ∀ params body body' σ τ,
    Correspondence.equality.value body body' → Correspondence.equality.scope σ τ →
      Correspondence.equality.callable (.closure serial params body σ)
        (.closure serial' params body' τ)) Run.newClosure Run.newClosure := by
  intro l p q hpq
  refine ⟨.ok ?_, hpq.steps, hpq.printed, congrArg (· + 1) hpq.closures⟩
  intro params body body' σ τ hbody hscope
  have hbody := Correspondence.equality_value.1 hbody
  change Callable.closure p.closures params body σ = .closure q.closures params body' τ
  rw [hpq.closures, hbody, show σ = τ from hscope]

end Run.Ahead

/-- Runs of the same program of which one is `k` steps ahead. -/
def Comparison.ahead (k : Nat) : Comparison .equality where
  run := Run.Ahead k
  pure := .pure
  bind := .bind
  fail _ := .fail _
  step := .step
  note _ _ _ _ hpq := ⟨.ok rfl, hpq.record _ _⟩
  printLine _ _ _ _ hpq := ⟨.ok rfl, hpq.steps, congrArg (List.cons _) hpq.printed, hpq.closures⟩
  read := .read
  newClosure := .newClosure

/-- **Steps that were counted before make no difference**, if the budget allows for them. -/
theorem evaluate_ahead {k : Nat} {p q : Progress} (h : p.Ahead k q) (n : Nat) (e : Value)
    (scope : Scope) (l : Limits) :
    Agree (Error.Raised l k) Eq (evaluate n e scope (l.raised k) p).1 (evaluate n e scope l q).1 ∧
      (evaluate n e scope (l.raised k) p).2.Ahead k (evaluate n e scope l q).2 := by
  have hbase : (Comparison.ahead k).Evaluators (fun _ _ => Run.tooDeep) (evaluate 0) :=
    fun _ _ _ _ _ _ _ _ _ hpq => ⟨.error (.inl rfl), hpq.record _ _⟩
  obtain ⟨hagree, hprogress⟩ := Comparison.evaluate_self hbase n e scope l p q h
  exact ⟨hagree.mono (fun _ _ he => he) fun _ _ => Correspondence.equality_value.1, hprogress⟩

/-- Without a budget, steps that were counted before make no difference at all. -/
theorem evaluate_ahead_free {l : Limits} (hl : l.budget = none) {k : Nat} {p q : Progress}
    (h : p.Ahead k q) (n : Nat) (e : Value) (scope : Scope) :
    (evaluate n e scope l p).1 = (evaluate n e scope l q).1 ∧
      (evaluate n e scope l p).2.Ahead k (evaluate n e scope l q).2 := by
  have hraised : l.raised k = l := by
    obtain ⟨budget, depth, nesting⟩ := l
    obtain rfl : budget = none := hl
    rfl
  have herror : ∀ err err', Error.Raised l k err err' → err = err' := by
    rintro err err' (heq | ⟨b, hb, -, -⟩)
    · exact heq
    · rw [hl] at hb
      cases hb
  obtain ⟨hagree, hprogress⟩ := evaluate_ahead h n e scope l
  rw [hraised] at hagree hprogress
  refine ⟨?_, hprogress⟩
  generalize (evaluate n e scope l p).1 = x, (evaluate n e scope l q).1 = y at hagree
  cases hagree with
  | ok hv => rw [hv]
  | error he => rw [herror _ _ he]

end MiniLisp
