import MiniLisp.Proofs.Evaluation.Abreast

/-!
# Applying a function to a list

`(apply f (list a ...))` applies the value of `f` to the items of a list, `(f a ...)` to the values
of the arguments. **They come to the same** (`evaluate_applyForm`): both evaluate `f` first and ask
whether it is a function, then evaluate the arguments in order, and apply it. The list costs a step,
and its items are evaluated one level deeper. Only what is said of an `f` that is no function
differs, since direct application abbreviates it.
-/

namespace MiniLisp

open Value (symbol)

/-- The expression `(list a ...)`. -/
def Value.listing (args : List Value) : Value := .list (symbol "list" :: args)

/-- The expression `(apply f (list a ...))`. -/
def Value.applyForm (f : Value) (args : List Value) : Value :=
  .list [symbol "apply", f, listing args]

/-- What `apply` does when its function is known. -/
def SpecialForm.applyItems (ev : Evaluate) (scope : Scope) (f : Callable) (list : Value) :
    Run Value := do
  match ← ev list scope with
  | .list items => f.apply ev items
  | v => Run.fail (.mismatch (.arguments v.inspect))

/-- How the form and how direct application refuse a value that is no function. -/
inductive Error.Uncallable (v : Value) : Error → Error → Prop
  | mk (h : ∀ f : Callable, v ≠ .leaf f) :
      Uncallable v (.notCallable v.inspect) (.notCallable (v.display 40))

/-- What the form does once it has been counted, with `f` for its function. -/
def SpecialForm.applyValue (ev : Evaluate) (scope : Scope) (f list : Value) : Run Value := do
  match ← ev f scope with
  | .leaf f => applyItems ev scope f list
  | v => Run.fail (.notCallable v.inspect)

/-- The form and direct application end alike, or neither has a function to apply. The value of that
is `value`. -/
inductive SpecialForm.ApplyEnds (value : Except Error Value) :
    Except Error Value × Progress → Except Error Value × Progress → Prop
  | alike {applied direct : Except Error Value × Progress}
      (h : EndAlike (Progress.Apart .same 1) Correspondence.equality.value applied direct) :
      ApplyEnds value applied direct
  | uncallable {v : Value} {e e' : Error} {p q : Progress} (hvalue : value = .ok v)
      (h : Error.Uncallable v e e') (houtput : p.output = q.output) :
      ApplyEnds value (.error e, p) (.error e', q)

section Shape

variable (args : List Value) (scope : Scope)

theorem evaluate_applyForm_eq (f : Value) (n : Nat) :
    evaluate (n + 1) (.applyForm f args) scope = (do
      Run.step
      Run.note (.specialForm SpecialForm.apply.name)
      SpecialForm.applyValue (evaluate n) scope f (.listing args)) := rfl

variable {copy : Nat} (hlist : scope.lookup? "list" = some (.leaf (.builtin copy .list)))
include hlist

/-- Where `list` is the builtin, a listing evaluates to the list of values. -/
theorem evaluate_listing (n : Nat) :
    evaluate (n + 2) (.listing args) scope = (do
      Run.step
      let values ← evaluateAll (evaluate (n + 1)) scope args
      return .list values) := by
  have hname : evaluate (n + 1) (symbol "list") scope = pure (.leaf (.builtin copy .list)) := by
    have hsymbol : (Atom.bare "list").isSymbol = true := rfl
    rw [symbol, evaluate, evaluateOnce, if_pos hsymbol]
    rw [show (Atom.bare "list").text = "list" from rfl, hlist]
  rw [Value.listing, evaluate_application rfl rfl args scope (n + 1), evaluateApplication, hname,
    pure_bind]
  rfl

/-- The items of the list against the arguments. -/
theorem applyItems_abreast (f : Callable) (n : Nat) :
    Run.Abreast (Progress.Apart .same 0) (Progress.Apart .same 1) Correspondence.equality.value
      (SpecialForm.applyItems (evaluate n) scope f (.listing args)) (do
        let values ← evaluateAll (evaluate n) scope args
        f.apply (evaluate n) values) := by
  by_cases hn : n < 2
  · intro l p q _
    exact .left (Run.stopped_bind (application_stopped rfl rfl args scope hn l p))
  · obtain ⟨n, rfl⟩ := Nat.exists_eq_add_of_le' (Nat.le_of_not_lt hn)
    have hitems : SpecialForm.applyItems (evaluate (n + 2)) scope f (.listing args) = (do
        Run.step
        let values ← evaluateAll (evaluate (n + 1)) scope args
        f.apply (evaluate (n + 2)) values) := by
      rw [SpecialForm.applyItems, evaluate_listing args scope hlist n]
      simp only [bind_assoc, pure_bind]
    rw [hitems]
    refine .step_left (S := Progress.Apart .same 1) (fun p q => Progress.Apart.counted_left) ?_
    have hargs : List.Forall₂ Correspondence.equality.value args args :=
      List.forall₂_same.2 fun e _ => Correspondence.equality_refl e
    refine .bind ((Comparison.abreast .same 1).mapM hargs fun e e' he =>
      Comparison.evaluators_abreast .same 1 (n + 1) 1 e e' scope scope he rfl) fun vs ws hvs => ?_
    exact Comparison.apply (Comparison.evaluators_abreast .same 1 (n + 2) 0) rfl hvs

/-- Both evaluate `f` and go on alike if that is a function. If not they both fail, each with a
message of its own. -/
theorem applyValue_ends (f : Value) (n : Nat) (l : Limits) {p q : Progress}
    (hpq : p.Apart .same 0 q) :
    SpecialForm.ApplyEnds (evaluate n f scope l q).1
      (SpecialForm.applyValue (evaluate n) scope f (.listing args) l p)
      (evaluateApplication (evaluate n) scope f args l q) := by
  have hhead := Comparison.evaluators_abreast .same 0 n 0 f f scope scope
    (Correspondence.equality_refl f) rfl l p q hpq
  rw [Nat.add_zero] at hhead
  by_cases hleft : Stopped (evaluate n f scope l p).1
  · exact .alike (.left (Run.stopped_bind hleft))
  by_cases hright : Stopped (evaluate n f scope l q).1
  · exact .alike (.right (Run.stopped_bind hright))
  rw [SpecialForm.applyValue, evaluateApplication, Run.bind_apply, Run.bind_apply]
  generalize evaluate n f scope l p = x, evaluate n f scope l q = y at *
  cases hhead with
  | @ok v w p' q' hresult hprogress =>
    obtain rfl := Correspondence.equality_value.1 hresult
    have houtput : p'.output = q'.output := Progress.output_congr hprogress.printed
    cases v with
    | leaf g => exact .alike (applyItems_abreast args scope hlist g n l p' q' hprogress)
    | atom a => exact .uncallable rfl (.mk (by rintro g ⟨⟩)) houtput
    | list vs => exact .uncallable rfl (.mk (by rintro g ⟨⟩)) houtput
    | map k v rest => exact .uncallable rfl (.mk (by rintro g ⟨⟩)) houtput
  | error e hprinted => exact .alike (.error e hprinted)
  | left h => exact absurd h hleft
  | right h => exact absurd h hright

/-- The form against direct application, at every depth. -/
theorem applyForm_ends {f : Value} (hdata : f.isLiteral = false)
    (hform : SpecialForm.ofHead? f = none) (n : Nat) (l : Limits) (p : Progress) :
    SpecialForm.ApplyEnds (evaluate (n - 1) f scope l p.counted).1
      (evaluate n (.applyForm f args) scope l p) (evaluate n (.list (f :: args)) scope l p) := by
  cases n with
  | zero => exact .alike (.left ⟨_, .depthExceeded l.depth, rfl⟩)
  | succ n =>
    rw [evaluate_applyForm_eq, evaluate_application hdata hform]
    rcases Run.step_stopped_or l p with hstopped | hstep
    · exact .alike (.left (Run.stopped_bind hstopped))
    · rw [Run.bind_apply, Run.bind_apply, hstep]
      exact applyValue_ends args scope hlist f n l ⟨rfl, rfl, rfl⟩

end Shape

/-- **`apply` agrees with direct application.** Let `f` be neither a literal tree nor the name of a
special form, in a scope in which `list` is the builtin. Unless one of them is stopped by a limit,
`(apply f (list a ...))` and `(f a ...)` end alike: with the same value or the same error, except
that they word differently that the value of `f` is no function. They have printed the same, and
where they succeed `apply` has taken one step more. -/
theorem evaluate_applyForm {f : Value} {args : List Value} {scope : Scope} {copy : Nat}
    (hdata : f.isLiteral = false) (hform : SpecialForm.ofHead? f = none)
    (hlist : scope.lookup? "list" = some (.leaf (.builtin copy .list))) (l : Limits)
    (p : Progress) :
    let applied := Run.evaluate (.applyForm f args) scope l p
    let direct := Run.evaluate (.list (f :: args)) scope l p
    ¬ Stopped applied.1 → ¬ Stopped direct.1 →
      Agree (fun e e' => e = e' ∨ ∃ v : Value, e.Uncallable v e' ∧
          (evaluate (l.depth.toNat - 1) f scope l p.counted).1 = .ok v) Eq applied.1 direct.1 ∧
        applied.2.output = direct.2.output ∧
        ∀ v, direct.1 = .ok v → applied.2.steps = direct.2.steps + 1 := by
  intro applied direct happlied hdirect
  have hends : SpecialForm.ApplyEnds (evaluate (l.depth.toNat - 1) f scope l p.counted).1 applied
    direct := applyForm_ends args scope hlist hdata hform l.depth.toNat l p
  generalize applied = x, direct = y at hends happlied hdirect
  cases hends with
  | alike h =>
    obtain ⟨hagree, hrest⟩ := h.results happlied hdirect
    exact ⟨hagree.mono (fun _ _ h => .inl h) fun _ _ => Correspondence.equality_value.1, hrest⟩
  | uncallable hvalue h houtput =>
    exact ⟨.error (.inr ⟨_, h, hvalue⟩), houtput, fun _ h => nomatch h⟩

/-- A function that makes a closure, called with something to print: the same closure, the same
output, and a step more. -/
theorem evaluate_applyForm_closure :
    let f : Value := .list [symbol "lambda", .list [symbol "x"],
      .list [symbol "lambda", .list [], symbol "x"]]
    let args : List Value := [.list [symbol "print", symbol "1"]]
    let scope := Scope.standard 0
    let applied := Run.evaluate (.applyForm f args) scope ⟨some 5, 4, .ok 0⟩ .start
    let direct := Run.evaluate (.list (f :: args)) scope ⟨some 5, 4, .ok 0⟩ .start
    let v : Value := .leaf (.closure 1 [] (symbol "x") (scope.extend [("x", .nil)]))
    f.isLiteral = false ∧ SpecialForm.ofHead? f = none ∧
      scope.lookup? "list" = some (.leaf (.builtin 0 .list)) ∧
      applied.1 = .ok v ∧ direct.1 = .ok v ∧ direct.2.output = "1\n" ∧
      applied.2.output = direct.2.output ∧ applied.2.steps = direct.2.steps + 1 := by
  intro f args scope applied direct v
  have hdata : f.isLiteral = false := rfl
  have hlist : scope.lookup? "list" = some (.leaf (.builtin 0 .list)) := rfl
  have happlied : applied.1 = .ok v := rfl
  have hdirect : direct.1 = .ok v := rfl
  obtain ⟨-, houtput, hsteps⟩ := @evaluate_applyForm f args scope 0 hdata rfl hlist
    ⟨some 5, 4, .ok 0⟩ .start (not_stopped_of_ok happlied) (not_stopped_of_ok hdirect)
  exact ⟨hdata, rfl, hlist, happlied, hdirect, rfl, houtput, hsteps v hdirect⟩

end MiniLisp
