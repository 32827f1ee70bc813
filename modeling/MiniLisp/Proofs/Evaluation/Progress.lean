import Mathlib.Order.Defs.PartialOrder
import MiniLisp.Proofs.Evaluation.Comparison

/-!
# Progress only grows

A run takes back nothing of what it has done: steps that were counted stay counted, and what was
printed stays printed. `p ≤ q` says that the progress `q` goes on from `p`, so that its output
starts with that of `p` (`Progress.output_prefix`).

* `Run.Onward`: the run goes on from where it started, whether it fails or not.
* `Run.Plain`: an action that minds neither the step budget nor the depth limit, counts no step and
  fails by reading only. Logging, printing, reading and the making of closures are plain.
-/

namespace MiniLisp

namespace Progress

/-- The progress `q` goes on from `p`: it has counted no less, and printed what `p` has and maybe
more. -/
structure Continues (p q : Progress) : Prop where
  steps : p.steps ≤ q.steps
  printed : p.printed <:+ q.printed

instance : Preorder Progress where
  le := Continues
  le_refl p := ⟨Nat.le_refl p.steps, List.suffix_refl p.printed⟩
  le_trans _ _ _ h h' := ⟨Nat.le_trans h.steps h'.steps, h.printed.trans h'.printed⟩

theorem output_prefix {p q : Progress} (h : p ≤ q) : p.output <+: q.output := by
  obtain ⟨later, hlater⟩ := h.printed
  refine ⟨later.reverse.flatten, ?_⟩
  rw [output, output, ← hlater, List.reverse_append, List.flatten_append]

theorem le_record (p : Progress) (events : List Event) : p ≤ p.record events :=
  ⟨Nat.le_refl _, List.suffix_refl _⟩

/-- Events are neither steps nor output. -/
theorem record_le (p : Progress) (events : List Event) : p.record events ≤ p :=
  ⟨Nat.le_refl _, List.suffix_refl _⟩

/-- The progress with one more step counted. -/
def counted (p : Progress) : Progress := { p with steps := p.steps + 1 }

theorem le_counted (p : Progress) : p ≤ p.counted := ⟨Nat.le_succ _, List.suffix_refl _⟩

end Progress

namespace Run

variable {α β : Type}

/-- The run goes on from `p`, and if it succeeds then with a result that has the property. -/
structure Onward (P : α → Prop) (p : Progress) (x : Except Error α × Progress) : Prop where
  progress : p ≤ x.2
  result : ∀ a, x.1 = .ok a → P a

theorem Onward.bind {P : α → Prop} {Q : β → Prop} {x : Run α} {f : α → Run β} {l : Limits}
    {p : Progress} (hx : Onward P p (x l p)) (hf : ∀ a q, P a → Onward Q q (f a l q)) :
    Onward Q p ((x >>= f) l p) := by
  rw [bind_apply]
  rcases hxp : x l p with ⟨e | a, q⟩
  · rw [hxp] at hx
    exact ⟨hx.progress, fun _ h => nomatch h⟩
  · rw [hxp] at hx
    have hfa := hf a q (hx.result a rfl)
    exact ⟨le_trans hx.progress hfa.progress, hfa.result⟩

/-- A step is counted, and fails if the budget does not allow for it. -/
theorem step_cases (l : Limits) (p : Progress) :
    (∃ b, l.budget = some b ∧ b < p.counted.steps ∧
      step l p = (.error (.budgetExceeded b), p.counted.record [.budgetExhausted b])) ∨
    ((∀ b, l.budget = some b → p.counted.steps ≤ b) ∧ step l p = (.ok (), p.counted)) := by
  rcases hb : l.budget with _ | b
  · refine .inr ⟨fun _ h => (nomatch h), ?_⟩
    simp only [step, hb]
    rfl
  · by_cases hover : b < p.counted.steps
    · refine .inl ⟨b, rfl, hover, ?_⟩
      have hover' : ((p.steps + 1 : Nat) : Int) > b := hover
      simp only [step, hb, hover', if_true]
      rfl
    · refine .inr ⟨?_, ?_⟩
      · rintro _ ⟨⟩
        omega
      · have hover' : ¬ ((p.steps + 1 : Nat) : Int) > b := hover
        simp only [step, hb, hover', if_false]
        rfl

theorem step_onward (l : Limits) (p : Progress) : p ≤ (step l p).2 := by
  rcases step_cases l p with ⟨b, -, -, hstep⟩ | ⟨-, hstep⟩
  · rw [hstep]
    exact le_trans p.le_counted (Progress.le_record _ _)
  · rw [hstep]
    exact p.le_counted

/-- An action that minds no limit but that of reading, counts no step and takes nothing back. -/
structure Plain (x : Run α) : Prop where
  limits_eq : ∀ (l l' : Limits) (p : Progress), l.nesting = l'.nesting → x l p = x l' p
  steps_eq : ∀ (l : Limits) (p : Progress), (x l p).2.steps = p.steps
  printed : ∀ (l : Limits) (p : Progress), p.printed <:+ (x l p).2.printed
  error : ∀ (l : Limits) (p : Progress) (e : Error), (x l p).1 = .error e →
    (∃ e', e = .read e') ∨ ∃ e', e = .setting e' ∧ l.nesting = .error e'

theorem Plain.onward {x : Run α} (h : Plain x) (l : Limits) (p : Progress) :
    Onward (fun _ => True) p (x l p) :=
  ⟨⟨Nat.le_of_eq (h.steps_eq l p).symm, h.printed l p⟩, fun _ _ => trivial⟩

theorem plain_note (e : Event) : Plain (note e) where
  limits_eq _ _ _ _ := rfl
  steps_eq _ _ := rfl
  printed _ _ := List.suffix_refl _
  error _ _ _ h := nomatch h

theorem plain_printLine (t : Text) : Plain (printLine t) where
  limits_eq _ _ _ _ := rfl
  steps_eq _ _ := rfl
  printed _ _ := List.suffix_cons _ _
  error _ _ _ h := nomatch h

theorem plain_newClosure : Plain newClosure where
  limits_eq _ _ _ _ := rfl
  steps_eq _ _ := rfl
  printed _ _ := List.suffix_refl _
  error _ _ _ h := nomatch h

/-- What reading a text comes to. -/
theorem read_apply (t : Text) (l : Limits) (p : Progress) :
    read t l p = (((Source.text t).read l.nesting).1.map Tree.ofDatum,
      p.record ((Source.text t).read l.nesting).2) := by
  rcases h : (Source.text t).read l.nesting with ⟨e | d, events⟩ <;>
    simp only [read, bind_apply, limits, modify, h] <;> rfl

theorem plain_read (t : Text) : Plain (read t) where
  limits_eq l l' p h := by rw [read_apply, read_apply, h]
  steps_eq l p := by rw [read_apply]; rfl
  printed l p := by rw [read_apply]; exact List.suffix_refl _
  error l p e h := by
    rw [read_apply] at h
    cases hn : l.nesting with
    | error e' =>
      simp only [hn, Source.read, Except.map, Except.error.injEq] at h
      exact .inr ⟨e', h.symm, rfl⟩
    | ok n =>
      simp only [hn, Source.read] at h
      cases hp : ((Source.text t).parse n).result with
      | error e' =>
        simp only [hp, Except.map, Except.error.injEq] at h
        exact .inl ⟨e', h.symm⟩
      | ok d => simp [hp, Except.map] at h

end Run

/-- A comparison of runs of the same program, from how it treats steps, failures and plain actions. -/
def Comparison.ofPlain (run : {α β : Type} → (α → β → Prop) → Run α → Run β → Prop)
    (pure : ∀ {α β : Type} {r : α → β → Prop} {a : α} {b : β}, r a b →
      run r (Pure.pure a) (Pure.pure b))
    (bind : ∀ {α β γ δ : Type} {r : α → β → Prop} {q : γ → δ → Prop} {x : Run α} {y : Run β}
      {f : α → Run γ} {g : β → Run δ}, run r x y → (∀ a b, r a b → run q (f a) (g b)) →
      run q (x >>= f) (y >>= g))
    (fail : ∀ {α β : Type} {r : α → β → Prop} {e : Error}, e.IsOfProgram →
      run r (Run.fail e) (Run.fail e))
    (step : run Eq Run.step Run.step)
    (plain : ∀ {α : Type} {x : Run α}, Run.Plain x → run Eq x x) :
    Comparison .equality where
  run := run
  pure := pure
  bind := bind
  fail := fail
  step := step
  note e := plain (Run.plain_note e)
  printLine t := plain (Run.plain_printLine t)
  read t := by
    have hread := bind (plain (Run.plain_read t)) fun v w hv =>
      pure (Correspondence.equality_value.2 hv)
    rwa [bind_pure] at hread
  newClosure := by
    have hnew := bind (plain Run.plain_newClosure) (q := fun serial serial' =>
      ∀ params body body' σ τ, Correspondence.equality.value body body' →
        Correspondence.equality.scope σ τ → Correspondence.equality.callable
          (.closure serial params body σ) (.closure serial' params body' τ))
      (f := Pure.pure) (g := Pure.pure) fun serial serial' hserial => pure ?_
    · rwa [bind_pure] at hnew
    · intro params body body' σ τ hbody hscope
      have hbody := Correspondence.equality_value.1 hbody
      change Callable.closure serial params body σ = .closure serial' params body' τ
      rw [hserial, hbody, show σ = τ from hscope]

end MiniLisp
