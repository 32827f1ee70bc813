import MiniLisp.Proofs.Evaluation.Progress

/-!
# The step budget cuts a run off and does nothing else

A run without a step budget is compared with the run of the same program under a budget `b`. Up to
the step after the `b`th they do the same. So **a budget that is large enough changes nothing**, and
a smaller one ends the run as soon as it is exceeded. `Metered` says what is left of the run then,
and `Run.UnderBudget.bind` that this passes from the parts of a run to the whole: once the second
run has been cut off, the first one can only make more progress.
-/

namespace MiniLisp

/-- What a budget `b` leaves of a run: all of it if the run stays within the budget, and otherwise
what it had done when it counted one step too many. -/
inductive Metered {α β : Type} (b : Nat) (r : α → β → Prop) :
    Except Error α × Progress → Except Error β × Progress → Prop
  | within {x : Except Error α} {y : Except Error β} {q : Progress} (hq : q.steps ≤ b)
      (h : Agree Eq r x y) : Metered b r (x, q) (y, q)
  | cut {x : Except Error α} {q q' : Progress} (hq : b < q.steps) (hsteps : q'.steps = b + 1)
      (h : q' ≤ q) : Metered b r (x, q) (.error (.budgetExceeded b), q')

namespace Limits

/-- The limits without a step budget. -/
def free (l : Limits) : Limits := { l with budget := none }

/-- The limits with a step budget. -/
def within (l : Limits) (b : Nat) : Limits := { l with budget := some b }

end Limits

/-- Under the budget `b` the second run is what is left of the first one, which has none. -/
def Run.UnderBudget (b : Nat) {α β : Type} (r : α → β → Prop) (x : Run α) (y : Run β) : Prop :=
  ∀ (l : Limits) (p : Progress), Run.Onward (fun a => ∃ b, r a b) p (x l.free p) ∧
    (p.steps ≤ b → Metered b r (x l.free p) (y (l.within b) p))

namespace Run.UnderBudget

variable {b : Nat} {α β γ δ : Type} {r : α → β → Prop} {q : γ → δ → Prop}

theorem pure {a : α} {c : β} (h : r a c) : UnderBudget b r (Pure.pure a) (Pure.pure c) := by
  intro l p
  refine ⟨⟨le_refl p, ?_⟩, fun hp => .within hp (.ok h)⟩
  rintro _ ⟨⟩
  exact ⟨c, h⟩

theorem fail {e : Error} : UnderBudget b r (Run.fail e) (Run.fail e) := by
  intro l p
  exact ⟨⟨le_refl p, fun _ h => nomatch h⟩, fun hp => .within hp (.error rfl)⟩

theorem bind {x : Run α} {y : Run β} {f : α → Run γ} {g : β → Run δ} (hx : UnderBudget b r x y)
    (hf : ∀ a c, r a c → UnderBudget b q (f a) (g c)) :
    UnderBudget b q (x >>= f) (y >>= g) := by
  intro l p
  have hfree : ∀ a p', (∃ c, r a c) → Onward (fun d => ∃ e, q d e) p' (f a l.free p') := by
    rintro a p' ⟨c, hac⟩
    exact (hf a c hac l p').1
  refine ⟨(hx l p).1.bind hfree, fun hp => ?_⟩
  have honward := (hx l p).1
  have hmetered := (hx l p).2 hp
  rw [bind_apply, bind_apply]
  generalize x l.free p = xp, y (l.within b) p = yp at honward hmetered
  cases hmetered with
  | within hq h =>
    cases h with
    | ok hac => exact (hf _ _ hac l _).2 hq
    | error h => exact h ▸ .within hq (.error rfl)
  | @cut x q q' hq hsteps h =>
    cases x with
    | error e => exact .cut hq hsteps h
    | ok a =>
      -- the free run may go on from here, and then it only makes more progress
      have hle : q ≤ (f a l.free q).2 := (hfree a q (honward.result a rfl)).progress
      exact .cut (Nat.lt_of_lt_of_le hq hle.steps) hsteps (le_trans h hle)

/-- A step is taken by both runs, unless it is the first one over the budget. -/
theorem step : UnderBudget b Eq Run.step Run.step := by
  intro l p
  refine ⟨⟨step_onward _ p, fun a _ => ⟨a, rfl⟩⟩, fun hp => ?_⟩
  have hfree : Run.step l.free p = (.ok (), p.counted) := rfl
  rw [hfree]
  rcases step_cases (l.within b) p with ⟨b', hb', hover, hstep⟩ | ⟨hwithin, hstep⟩
  · obtain rfl : (b : Int) = b' := Option.some.inj hb'
    have hlast : p.counted.steps = b + 1 := by
      simp only [Progress.counted] at hover ⊢
      omega
    rw [hstep]
    exact .cut (by omega) hlast (Progress.record_le _ _)
  · have hroom := hwithin b rfl
    rw [hstep]
    exact .within (by omega) (.ok rfl)

theorem plain {x : Run α} (h : Plain x) : UnderBudget b Eq x x := by
  intro l p
  refine ⟨⟨(h.onward l.free p).progress, fun a _ => ⟨a, rfl⟩⟩, fun hp => ?_⟩
  have hsteps : (x l.free p).2.steps ≤ b := by
    rw [h.steps_eq]
    exact hp
  rw [h.limits_eq (l.within b) l.free p rfl]
  exact .within hsteps (.refl _)

end Run.UnderBudget

/-- Runs without a budget and under the budget `b`. -/
def Comparison.underBudget (b : Nat) : Comparison .equality :=
  .ofPlain (Run.UnderBudget b) .pure .bind (fun _ => .fail) .step .plain

/-- To run out of depth takes no step. -/
theorem tooDeep_underBudget (b : Nat) :
    (Comparison.underBudget b).Evaluators (fun _ _ => Run.tooDeep) (evaluate 0) := by
  intro e e' σ τ _ _ l p
  exact ⟨⟨Progress.le_record _ _, fun _ h => nomatch h⟩, fun hp => .within hp (.error rfl)⟩

/-- **The step budget is an exact cut-off.** An evaluation that takes no more than `b` steps ends
under the budget `b` just as it does without one. If it takes more, it fails under the budget with
the step after the `b`th, and has printed the beginning of what it would have printed. -/
theorem evaluate_budget (e : Value) (scope : Scope) (depth : Int)
    (nesting : Except SettingError Int) (b : Nat) :
    let free := Run.evaluate e scope ⟨none, depth, nesting⟩ .start
    let limited := Run.evaluate e scope ⟨some b, depth, nesting⟩ .start
    if free.2.steps ≤ b then limited = free
    else limited.1 = .error (.budgetExceeded b) ∧ limited.2.steps = b + 1 ∧
      limited.2.output <+: free.2.output := by
  intro free limited
  have hmetered : Metered b Correspondence.equality.value free limited :=
    (Comparison.evaluate_self (tooDeep_underBudget b) depth.toNat e scope
      ⟨none, depth, nesting⟩ .start).2 (Nat.zero_le b)
  generalize free = free, limited = limited at hmetered
  cases hmetered with
  | within hq h =>
    rw [if_pos hq, Correspondence.eq_of_agree h]
  | cut hq hsteps h =>
    rw [if_neg (Nat.not_le.2 hq)]
    exact ⟨rfl, hsteps, Progress.output_prefix h⟩

/-! ## Where the count stands -/

/-- What a run under a budget has counted: no step of its own or no more than the budget allows, and
one step too many if it was cut off. The error then names the budget. -/
inductive Counted {α : Type} (l : Limits) (p : Progress) : Except Error α × Progress → Prop
  | kept {x : Except Error α} {q : Progress}
      (hsteps : q.steps = p.steps ∨ ∀ b, l.budget = some b → (q.steps : Int) ≤ b)
      (hx : ∀ c, x ≠ .error (.budgetExceeded c)) : Counted l p (x, q)
  | exceeded {b : Int} {q : Progress} (hb : l.budget = some b)
      (hsteps : (q.steps : Int) = max (p.steps : Int) b + 1) :
      Counted l p (.error (.budgetExceeded b), q)

/-- The second run keeps count in this way. -/
def Run.Counts {α β : Type} (r : α → β → Prop) (_ : Run α) (y : Run β) : Prop :=
  ∀ (l : Limits) (p : Progress), Run.Onward (fun b => ∃ a, r a b) p (y l p) ∧ Counted l p (y l p)

namespace Run.Counts

variable {α β γ δ : Type} {r : α → β → Prop} {q : γ → δ → Prop}

theorem pure {a : α} {b : β} (h : r a b) : Counts r (Pure.pure a) (Pure.pure b) := by
  intro l p
  refine ⟨⟨le_refl p, ?_⟩, .kept (.inl rfl) fun _ h => nomatch h⟩
  rintro _ ⟨⟩
  exact ⟨a, h⟩

theorem bind {x : Run α} {y : Run β} {f : α → Run γ} {g : β → Run δ} (hx : Counts r x y)
    (hf : ∀ a b, r a b → Counts q (f a) (g b)) : Counts q (x >>= f) (y >>= g) := by
  intro l p
  obtain ⟨honward, hcounted⟩ := hx l p
  have hrest : ∀ b p', (∃ a, r a b) → Onward (fun d => ∃ c, q c d) p' (g b l p') := by
    rintro b p' ⟨a, hab⟩
    exact (hf a b hab l p').1
  refine ⟨honward.bind hrest, ?_⟩
  rw [bind_apply]
  generalize y l p = yp at honward hcounted
  cases hcounted with
  | exceeded hb hsteps => exact .exceeded hb hsteps
  | @kept y q' hsteps hy =>
    cases y with
    | error e => exact .kept hsteps fun c hc => hy c (congrArg _ (Except.error.inj hc))
    | ok b =>
      obtain ⟨a, hab⟩ := honward.result b rfl
      have hle := honward.progress.steps
      have hcounted' := (hf a b hab l q').2
      dsimp only at hle ⊢
      generalize g b l q' = z at hcounted'
      -- what comes after starts from a count that was kept, so it ends where the whole does
      cases hcounted' with
      | kept hsteps' hz =>
        refine .kept ?_ hz
        rcases hsteps' with heq | hwithin
        · rwa [heq]
        · exact .inr hwithin
      | exceeded hb hsteps' =>
        refine .exceeded hb ?_
        rcases hsteps with heq | hwithin
        · rw [← heq]
          exact hsteps'
        · have := hwithin _ hb
          omega

theorem fail {e : Error} (h : e.IsOfProgram) : Counts r (Run.fail e) (Run.fail e) := by
  intro l p
  refine ⟨⟨le_refl p, fun _ h => nomatch h⟩, .kept (.inl rfl) fun c hc => ?_⟩
  cases Except.error.inj hc
  cases h with
  | ofBuiltin h =>
    cases h with
    | misuse h => cases h

theorem step : Counts Eq Run.step Run.step := by
  intro l p
  refine ⟨⟨step_onward l p, fun a _ => ⟨a, rfl⟩⟩, ?_⟩
  rcases step_cases l p with ⟨b, hb, hover, hstep⟩ | ⟨hwithin, hstep⟩
  · rw [hstep]
    refine .exceeded hb ?_
    simp only [Progress.counted, Progress.record] at hover ⊢
    omega
  · rw [hstep]
    exact .kept (.inr hwithin) fun _ h => nomatch h

theorem plain {x : Run α} (h : Plain x) : Counts Eq x x := by
  intro l p
  refine ⟨⟨(h.onward l p).progress, fun a _ => ⟨a, rfl⟩⟩, ?_⟩
  refine .kept (.inl (h.steps_eq l p)) fun c hc => ?_
  rcases h.error l p _ hc with ⟨e, he⟩ | ⟨e, he, -⟩ <;> cases he

end Run.Counts

/-- A run keeps count. -/
def Comparison.counts : Comparison .equality := .ofPlain Run.Counts .pure .bind .fail .step .plain

/-- **Evaluation keeps count**, whatever has been counted before. -/
theorem evaluate_counts (n : Nat) (e : Value) (scope : Scope) (l : Limits) (p : Progress) :
    p ≤ (evaluate n e scope l p).2 ∧ Counted l p (evaluate n e scope l p) := by
  have hbase : Comparison.counts.Evaluators (fun _ _ => Run.tooDeep) (evaluate 0) :=
    fun _ _ _ _ _ _ l p => ⟨⟨Progress.le_record _ _, fun _ h => nomatch h⟩,
      .kept (.inl rfl) fun _ h => nomatch h⟩
  obtain ⟨honward, hcounted⟩ := Comparison.evaluate_self hbase n e scope l p
  exact ⟨honward.progress, hcounted⟩

end MiniLisp
