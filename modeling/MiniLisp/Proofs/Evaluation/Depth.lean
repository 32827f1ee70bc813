import MiniLisp.Proofs.Evaluation.Progress

/-!
# The depth limit is a threshold

A run under a depth limit `d` is compared with the run of the same program under a higher limit
`d'`. They do the same until the first one is about to nest deeper than `d`, where it fails. So
**an evaluation that does not run out of depth is the same under every higher limit**, and one that
does also runs out under every lower limit, earlier or at the same point. Both come from `Shallower`,
which says what the lower limit leaves of the run under the higher one.
-/

namespace MiniLisp

/-- What a limit `d` leaves of a run under a higher limit: all of it, or what it had done when it
was about to nest deeper than `d`. -/
inductive Shallower {α β : Type} (d : Int) (r : α → β → Prop) :
    Except Error α × Progress → Except Error β × Progress → Prop
  | same {x : Except Error α} {y : Except Error β} {q : Progress}
      (hx : ∀ n, x ≠ .error (.depthExceeded n)) (h : Agree Eq r x y) : Shallower d r (x, q) (y, q)
  | cut {y : Except Error β} {q q' : Progress} (h : q ≤ q') :
      Shallower d r (.error (.depthExceeded d), q) (y, q')

theorem Shallower.refl {α : Type} {d : Int} {z : Except Error α × Progress}
    (hz : ∀ n, z.1 ≠ .error (.depthExceeded n)) : Shallower d Eq z z :=
  .same hz (.refl _)

/-- The limits with another one for the depth. -/
def Limits.downTo (l : Limits) (d : Int) : Limits := { l with depth := d }

/-- Under the depth limit `d` the first run is what is left of the second one, which has `d'`. -/
def Run.UpToDepth (d d' : Int) {α β : Type} (r : α → β → Prop) (x : Run α) (y : Run β) : Prop :=
  ∀ (l : Limits) (p : Progress), Run.Onward (fun b => ∃ a, r a b) p (y (l.downTo d') p) ∧
    Shallower d r (x (l.downTo d) p) (y (l.downTo d') p)

namespace Run.UpToDepth

variable {d d' : Int} {α β γ δ : Type} {r : α → β → Prop} {q : γ → δ → Prop}

theorem pure {a : α} {c : β} (h : r a c) : UpToDepth d d' r (Pure.pure a) (Pure.pure c) := by
  intro l p
  refine ⟨⟨le_refl p, ?_⟩, .same (fun _ h => nomatch h) (.ok h)⟩
  rintro _ ⟨⟩
  exact ⟨a, h⟩

theorem fail {e : Error} (h : e.IsOfProgram) : UpToDepth d d' r (Run.fail e) (Run.fail e) := by
  intro l p
  refine ⟨⟨le_refl p, fun _ h => nomatch h⟩, .same (fun n hn => ?_) (.error rfl)⟩
  exact h.ne_depthExceeded n (Except.error.inj hn)

theorem bind {x : Run α} {y : Run β} {f : α → Run γ} {g : β → Run δ} (hx : UpToDepth d d' r x y)
    (hf : ∀ a c, r a c → UpToDepth d d' q (f a) (g c)) :
    UpToDepth d d' q (x >>= f) (y >>= g) := by
  intro l p
  have hdeep : ∀ c p', (∃ a, r a c) → Onward (fun e => ∃ d, q d e) p' (g c (l.downTo d') p') := by
    rintro c p' ⟨a, hac⟩
    exact (hf a c hac l p').1
  obtain ⟨honward, hshallower⟩ := hx l p
  refine ⟨honward.bind hdeep, ?_⟩
  rw [bind_apply, bind_apply]
  generalize x (l.downTo d) p = xp, y (l.downTo d') p = yp at honward hshallower
  cases hshallower with
  | same hne h =>
    cases h with
    | ok hac => exact (hf _ _ hac l _).2
    | error h => exact .same (fun n hn => hne n (by cases hn; rfl)) (.error h)
  | @cut y q q' h =>
    cases y with
    | error e => exact .cut h
    | ok c =>
      -- the run with more depth may go on from here, and then it only makes more progress
      exact .cut (le_trans h (hdeep c q' (honward.result c rfl)).progress)

theorem step : UpToDepth d d' Eq Run.step Run.step := by
  intro l p
  refine ⟨⟨step_onward _ p, fun a _ => ⟨a, rfl⟩⟩, ?_⟩
  have hsame : Run.step (l.downTo d) p = Run.step (l.downTo d') p := rfl
  rw [hsame]
  refine .refl fun n hn => ?_
  rcases step_cases (l.downTo d') p with ⟨b, -, -, hstep⟩ | ⟨-, hstep⟩ <;> rw [hstep] at hn <;>
    cases hn

theorem plain {x : Run α} (h : Plain x) : UpToDepth d d' Eq x x := by
  intro l p
  refine ⟨⟨(h.onward _ p).progress, fun a _ => ⟨a, rfl⟩⟩, ?_⟩
  rw [h.limits_eq (l.downTo d) (l.downTo d') p rfl]
  refine .refl fun n hn => ?_
  rcases h.error _ p _ hn with ⟨e, he⟩ | ⟨e, he, -⟩ <;> cases he

/-- A run that is out of depth has stopped before any other. -/
theorem tooDeep {y : Run β} (h : ∀ l p, Onward (fun c => ∃ a, r a c) p (y l p)) :
    UpToDepth d d' r Run.tooDeep y := by
  intro l p
  exact ⟨h _ p, .cut (le_trans (Progress.record_le _ _) (h _ p).progress)⟩

end Run.UpToDepth

/-- Runs under the depth limits `d` and `d'`. -/
def Comparison.upToDepth (d d' : Int) : Comparison .equality :=
  .ofPlain (Run.UpToDepth d d') .pure .bind .fail .step .plain

/-- An evaluation takes nothing back. -/
theorem evaluate_onward (n : Nat) (e : Value) (scope : Scope) (l : Limits) (p : Progress) :
    Run.Onward (fun v => ∃ w, Correspondence.equality.value w v) p (evaluate n e scope l p) := by
  have hbase : (Comparison.upToDepth l.depth l.depth).Evaluators (fun _ _ => Run.tooDeep)
      (evaluate 0) := by
    intro e e' σ τ _ _
    exact .tooDeep fun l p => ⟨Progress.le_record _ _, fun _ h => nomatch h⟩
  exact (Comparison.evaluate_self hbase n e scope l p).1

/-- **The depth limit is an exact threshold.** An evaluation that ends otherwise than by running
out of depth ends in the same way under every higher limit. One that runs out of depth does so under
every lower limit as well, which it then names, and has taken no more steps by then and printed the
beginning of what it would have printed. -/
theorem evaluate_depth (e : Value) (scope : Scope) (budget : Option Int)
    (nesting : Except SettingError Int) (depth : Int) (more : Nat) :
    let lower := Run.evaluate e scope ⟨budget, depth, nesting⟩ .start
    let higher := Run.evaluate e scope ⟨budget, depth + more, nesting⟩ .start
    ((∀ n, lower.1 ≠ .error (.depthExceeded n)) → higher = lower) ∧
      ((∃ n, higher.1 = .error (.depthExceeded n)) →
        lower.1 = .error (.depthExceeded depth) ∧ lower.2.steps ≤ higher.2.steps ∧
          lower.2.output <+: higher.2.output) := by
  intro lower higher
  obtain ⟨k, hk⟩ : ∃ k, (depth + more).toNat = depth.toNat + k :=
    ⟨(depth + more).toNat - depth.toNat, by omega⟩
  have hbase : (Comparison.upToDepth depth (depth + more)).Evaluators (fun _ _ => Run.tooDeep)
      (evaluate k) := fun _ e' _ τ _ _ => .tooDeep (evaluate_onward k e' τ)
  have hshallower : Shallower depth Correspondence.equality.value lower higher := by
    have hrun := (Comparison.evaluate_self hbase depth.toNat e scope ⟨budget, depth, nesting⟩
      .start).2
    rw [← hk] at hrun
    exact hrun
  generalize lower = lower, higher = higher at hshallower
  cases hshallower with
  | same hne h =>
    rw [← Correspondence.eq_of_agree h]
    exact ⟨fun _ => rfl, fun ⟨n, hn⟩ => absurd hn (hne n)⟩
  | cut h =>
    exact ⟨fun hne => absurd rfl (hne depth), fun _ => ⟨rfl, h.steps, Progress.output_prefix h⟩⟩

/-- A call inside a call needs three levels: three are as good as five, and with one or two it runs
out of depth. -/
theorem evaluate_depth_nested_calls :
    let call (arg : Value) : Value := .list [.atom (Atom.bare "not"), arg]
    let run (depth : Int) := Run.evaluate (call (call (.atom (Atom.bare "1")))) (Scope.standard 0)
      ⟨none, depth, .ok 0⟩ .start
    (run 3).1 = .ok (.atom (Atom.bare "true")) ∧ run 5 = run 3 ∧
      (run 2).1 = .error (.depthExceeded 2) ∧ (run 1).1 = .error (.depthExceeded 1) ∧
      (run 1).2.steps ≤ (run 2).2.steps ∧ (run 1).2.output <+: (run 2).2.output := by
  intro call run
  have hthree : (run 3).1 = .ok (.atom (Atom.bare "true")) := rfl
  have htwo : (run 2).1 = .error (.depthExceeded 2) := rfl
  have hmore : run 5 = run 3 :=
    (evaluate_depth (call (call (.atom (Atom.bare "1")))) (Scope.standard 0) none (.ok 0) 3 2).1
      fun n h => nomatch hthree.symm.trans h
  have hless := (evaluate_depth (call (call (.atom (Atom.bare "1")))) (Scope.standard 0) none
    (.ok 0) 1 1).2 ⟨2, htwo⟩
  exact ⟨hthree, hmore, htwo, hless⟩

end MiniLisp
