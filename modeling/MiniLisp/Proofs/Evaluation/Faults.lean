import Mathlib
import MiniLisp.Proofs.Evaluation.Writing
import MiniLisp.Session

/-!
# How evaluation fails

The language has errors of its own: a text that cannot be read, and the errors of evaluation
(`Error.IsOwn`). All others belong to the surroundings, such as a setting that cannot be used.

`Comparison.failsAlike` compares a run with itself, which shows that evaluation fails only by the
errors of the language, **with one exception** (`evaluate_error`, and `Session.eval_outcome` for
documents): a function inside a list or a map that `to-text` or `print` has to write.

All of this rests on the two assumptions that runs make about their surroundings: an output that
takes any text, and a stack with room enough.
-/

namespace MiniLisp

/-- No setting is made. -/
def Variables.unset : Variables := ⟨none, none, none, none⟩

/-- The errors of the language: a text that is no document, or an expression without a value. -/
inductive Error.IsOwn : Error → Prop
  | read (e : ReadError) : IsOwn (.read e)
  | unbound (name : Text) : IsOwn (.unbound name)
  | notCallable (shown : Text) : IsOwn (.notCallable shown)
  | arity (name : Text) (expected : Arity) (received : Nat) : IsOwn (.arity name expected received)
  | mismatch (m : Mismatch) : IsOwn (.mismatch m)
  | arithmetic (fault : ArithmeticFault) : IsOwn (.arithmetic fault)
  | budgetExceeded (budget : Int) : IsOwn (.budgetExceeded budget)
  | depthExceeded (limit : Int) : IsOwn (.depthExceeded limit)

/-- The errors that evaluation can end in, if settings are no matter. -/
inductive Error.IsOfEvaluation : Error → Prop
  | own {e : Error} (h : e.IsOwn) : IsOfEvaluation e
  | unwritable (shown : Text) : IsOfEvaluation (.unwritable shown)

theorem Error.IsOfProgram.isOfEvaluation {e : Error} (h : e.IsOfProgram) : e.IsOfEvaluation := by
  cases h with
  | unbound name => exact .own (.unbound name)
  | notCallable shown => exact .own (.notCallable shown)
  | ofBuiltin h =>
    cases h with
    | unwritable shown => exact .unwritable shown
    | misuse h =>
      cases h with
      | arity name expected received => exact .own (.arity name expected received)
      | mismatch m => exact .own (.mismatch m)
      | arithmetic fault => exact .own (.arithmetic fault)

/-- Both runs do the same, and fail only as evaluation does, as long as texts can be read. -/
def Run.FailsAlike {α β : Type} (r : α → β → Prop) (x : Run α) (y : Run β) : Prop :=
  ∀ (l : Limits) (p : Progress), (∃ n, l.nesting = .ok n) →
    Agree (Error.Shared Error.IsOfEvaluation) r (x l p).1 (y l p).1 ∧ (x l p).2 = (y l p).2

namespace Run.FailsAlike

variable {α β γ δ : Type} {r : α → β → Prop} {q : γ → δ → Prop}

theorem bind {x : Run α} {y : Run β} {f : α → Run γ} {g : β → Run δ} (hx : FailsAlike r x y)
    (hf : ∀ a b, r a b → FailsAlike q (f a) (g b)) : FailsAlike q (x >>= f) (y >>= g) := by
  intro l p hl
  obtain ⟨hagree, hprogress⟩ := hx l p hl
  rw [bind_apply, bind_apply]
  generalize x l p = xp, y l p = yp at hagree hprogress
  obtain ⟨xr, p'⟩ := xp
  obtain ⟨yr, q'⟩ := yp
  obtain rfl : p' = q' := hprogress
  cases hagree with
  | ok hab => exact hf _ _ hab l p' hl
  | error he => exact ⟨.error he, rfl⟩

/-- A run that fails only as evaluation does, beside itself. -/
theorem of_error {x : Run α} (h : ∀ l p e, (∃ n, l.nesting = .ok n) → (x l p).1 = .error e →
    e.IsOfEvaluation) : FailsAlike Eq x x := by
  intro l p hl
  refine ⟨?_, rfl⟩
  cases hx : (x l p).1 with
  | ok a => exact .ok rfl
  | error e => exact .error ⟨rfl, h l p e hl hx⟩

theorem step : FailsAlike Eq Run.step Run.step := by
  refine of_error fun l p e _ he => ?_
  rcases step_cases l p with ⟨b, -, -, hstep⟩ | ⟨-, hstep⟩ <;> rw [hstep] at he <;> cases he
  exact .own (.budgetExceeded b)

theorem plain {x : Run α} (h : Plain x) : FailsAlike Eq x x := by
  refine of_error fun l p e hl he => ?_
  obtain ⟨n, hn⟩ := hl
  rcases h.error l p e he with ⟨e', rfl⟩ | ⟨e', -, hsetting⟩
  · exact .own (.read e')
  · rw [hn] at hsetting
    cases hsetting

end Run.FailsAlike

/-- Runs that fail only as evaluation does. -/
def Comparison.failsAlike : Comparison .equality :=
  .ofPlain Run.FailsAlike (fun h _ _ _ => ⟨.ok h, rfl⟩) .bind
    (fun he _ _ _ => ⟨.error ⟨rfl, he.isOfEvaluation⟩, rfl⟩) .step .plain

/-- **Evaluation fails by an error of the language or for want of a text.** -/
theorem evaluate_error {e : Value} {scope : Scope} {l : Limits} {p : Progress} {err : Error}
    (hl : ∃ n, l.nesting = .ok n) (h : (Run.evaluate e scope l p).1 = .error err) :
    err.IsOfEvaluation := by
  have hbase : Comparison.failsAlike.Evaluators (fun _ _ => Run.tooDeep) (evaluate 0) :=
    fun _ _ _ _ _ _ l _ _ => ⟨.error ⟨rfl, .own (.depthExceeded l.depth)⟩, rfl⟩
  have hfails : Agree (Error.Shared Error.IsOfEvaluation) Correspondence.equality.value
      (Run.evaluate e scope l p).1 (Run.evaluate e scope l p).1 :=
    (Comparison.evaluate_self hbase l.depth.toNat e scope l p hl).1
  rw [h] at hfails
  cases hfails with
  | error he => exact he.2

theorem Variables.maxNesting_unset : Variables.unset.maxNesting = .ok 200 := rfl

namespace Source

variable {source : Source}

/-- Without settings, up to 200 levels are read. -/
theorem read_unset_of_ok {d : Datum} (h : (source.parse 200).result = .ok d) :
    source.read Variables.unset.maxNesting = (.ok d, (source.parse 200).events) := by
  simp only [Variables.maxNesting_unset, Source.read, h]

theorem read_unset_of_error {e : ReadError} (h : (source.parse 200).result = .error e) :
    source.read Variables.unset.maxNesting = (.error (.read e), (source.parse 200).events) := by
  simp only [Variables.maxNesting_unset, Source.read, h]

end Source

namespace Session

variable (source : Source) (s : Session)

theorem run_get_bind {α : Type} (f : Session → SessionStep α) :
    (do f (← get)).run s = (f s).run s := rfl

/-- Evaluation in a session is a run that leaves its progress behind. -/
theorem evaluate_of_limits {vars : Variables} {l : Limits}
    (hl : vars.limits s.budget s.depth = .ok l) (e : Value) :
    (evaluate vars e).run s =
      ((Run.evaluate e s.scope l { s.progress with steps := 0 }).1,
        { s with progress := (Run.evaluate e s.scope l { s.progress with steps := 0 }).2 }) := by
  rw [evaluate, run_get_bind]
  simp only [hl]
  cases (Run.evaluate e s.scope l { s.progress with steps := 0 }).1 <;> rfl

/-- There may be no limits to run it under. -/
theorem evaluate_result (vars : Variables) (e : Value) :
    ((evaluate vars e).run s).1 =
      match vars.limits s.budget s.depth with
      | .error err => .error (.setting err)
      | .ok l => (Run.evaluate e s.scope l { s.progress with steps := 0 }).1 := by
  cases hl : vars.limits s.budget s.depth with
  | error err =>
    rw [evaluate, run_get_bind]
    simp only [hl]
    rfl
  | ok l => rw [evaluate_of_limits s hl]

/-- Evaluating a document is reading it and then evaluating what was read. -/
theorem eval_result (vars : Variables) :
    ((eval vars source).run s).1 =
      match source.read vars.maxNesting with
      | (.error e, _) => .error e
      | (.ok d, events) =>
        ((evaluate vars d).run { s with progress := s.progress.record events }).1 := by
  rcases hread : source.read vars.maxNesting with ⟨e | d, events⟩ <;>
    simp only [eval, read, hread] <;> rfl

/-- Without settings there are limits for every evaluation. -/
theorem limits_unset (budget depth : Option Int) :
    Variables.unset.limits budget depth = .ok ⟨budget, depth.getD 150, .ok 200⟩ := by
  cases budget <;> cases depth <;> rfl

theorem evaluate_outcome (e : Value) {err : Error}
    (h : ((evaluate .unset e).run s).1 = .error err) : err.IsOfEvaluation := by
  rw [evaluate_result, limits_unset] at h
  exact evaluate_error ⟨200, rfl⟩ h

/-- **Without settings, evaluating a document gives a value or fails as evaluation does.** -/
theorem eval_outcome {err : Error} (h : ((eval .unset source).run s).1 = .error err) :
    err.IsOfEvaluation := by
  rw [eval_result] at h
  cases hparse : (source.parse 200).result with
  | error e =>
    rw [Source.read_unset_of_error hparse] at h
    cases h
    exact .own (.read e)
  | ok d =>
    rw [Source.read_unset_of_ok hparse] at h
    exact evaluate_outcome _ _ h

/-- **Without settings, evaluating a document gives a value, or ends in an error of the language,
or has a function to write.** That happens only in calls of `to-text` and `print`, and only if there
are functions inside the lists and maps that are written. It is assumed that the output takes any
text, also one with a lone surrogate in it, and that the stack has room for every nesting that the
limits allow and for every tree that a program builds: where the output or the stack fails by
itself, nothing is said. -/
theorem eval_ends :
    ((∃ v, ((eval .unset source).run s).1 = .ok v) ∨
      (∃ e : Error, ((eval .unset source).run s).1 = .error e ∧ e.IsOwn) ∨
      ∃ shown, ((eval .unset source).run s).1 = .error (.unwritable shown)) ∧
    ∀ (b : Builtin) (args : List Value) (l : Limits) (p : Progress) (shown : Text),
      (b.operation.call b.name args l p).1 = .error (.unwritable shown) ↔
        ∃ f, ((b.written args).flatMap Value.inner).head? = some f ∧ f.label = shown := by
  refine ⟨?_, Builtin.call_unwritable_iff⟩
  cases hresult : ((eval .unset source).run s).1 with
  | ok v => exact .inl ⟨v, rfl⟩
  | error e =>
    cases eval_outcome source s hresult with
    | own h => exact .inr (.inl ⟨e, rfl, h⟩)
    | unwritable shown => exact .inr (.inr ⟨shown, rfl⟩)

/-- A list with a function in it has no text, and to ask for it is no error of the language. -/
theorem eval_toText_list_function :
    ((eval .unset (.text "to-text (list +)")).run ⟨Scope.standard 0, none, none, .start⟩).1 =
      .error (.unwritable "<builtin +>") ∧ ¬ (Error.unwritable "<builtin +>").IsOwn := by
  refine ⟨?_, fun h => nomatch h⟩
  cbv

end Session

end MiniLisp
