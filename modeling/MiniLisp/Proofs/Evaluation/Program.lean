import MiniLisp.Evaluation.Evaluate

/-!
# Evaluation with its calls left open

One level of evaluation does things of its own and has the parts of an expression evaluated, by
whatever way to evaluate it is given. `Program F` says that `F` is made up of that and nothing else:
of actions that have nothing to do with the way to evaluate, and of calls of it, one after the other.
**One level of evaluation is such a program** (`Program.evaluateOnce`), and so is every part of it.
So what is done around a call can be said in one place for all calls.
-/

namespace MiniLisp

/-- Made up of actions and of calls of the way to evaluate. -/
inductive Program : {α : Type} → (Evaluate → Run α) → Prop
  | act {α : Type} (x : Run α) : Program fun _ => x
  | call (e : Value) (scope : Scope) : Program fun ev => ev e scope
  | bind {α β : Type} {F : Evaluate → Run α} {G : Evaluate → α → Run β} (hF : Program F)
      (hG : ∀ a, Program fun ev => G ev a) : Program fun ev => F ev >>= G ev

namespace Program

variable {α β : Type}

theorem mapM {f : Evaluate → α → Run β} (hf : ∀ a, Program fun ev => f ev a) (xs : List α) :
    Program fun ev => xs.mapM (f ev) := by
  induction xs with
  | nil => exact .act (pure [])
  | cons a xs ih =>
    simp only [List.mapM_cons]
    exact .bind (hf a) fun b => .bind ih fun bs => .act (pure (b :: bs))

theorem evaluateAll (scope : Scope) (es : List Value) :
    Program fun ev => MiniLisp.evaluateAll ev scope es :=
  mapM (fun e => .call e scope) es

theorem evaluateEntries (scope : Scope) (es : List (Value × Value)) :
    Program fun ev => MiniLisp.evaluateEntries ev scope es := by
  refine mapM (fun e => ?_) es
  exact .bind (.call e.2 scope) fun v => .act (pure (e.1, v))

theorem apply (f : Callable) (args : List Value) : Program fun ev => f.apply ev args := by
  cases f with
  | builtin copy op => exact .act _
  | closure serial params body scope =>
    simp only [Callable.apply]
    split
    · exact .call _ _
    · exact .act _

section Parts

variable (scope : Scope)

theorem evalSequence (es : List Value) :
    Program fun ev => SpecialForm.evalSequence ev scope es := by
  induction es with
  | nil => exact .act _
  | cons e es ih =>
    cases es with
    | nil => exact .call e scope
    | cons _ _ => exact .bind (.call e scope) fun _ => ih

theorem evalConjunction (es : List Value) :
    Program fun ev => SpecialForm.evalConjunction ev scope es := by
  induction es with
  | nil => exact .act _
  | cons e es ih =>
    cases es with
    | nil => exact .call e scope
    | cons _ _ =>
      refine .bind (.call e scope) fun v => ?_
      split
      · exact ih
      · exact .act _

theorem evalDisjunction (es : List Value) :
    Program fun ev => SpecialForm.evalDisjunction ev scope es := by
  induction es with
  | nil => exact .act _
  | cons e es ih =>
    refine .bind (.call e scope) fun v => ?_
    split
    · exact .act _
    · exact ih

theorem evalBindings (es : List (Value × Value)) :
    Program fun ev => SpecialForm.evalBindings ev scope es := by
  induction es with
  | nil => exact .act _
  | cons e es ih =>
    simp only [SpecialForm.evalBindings]
    split
    · exact .act _
    · exact .bind (.call e.2 scope) fun v => .bind ih fun vs => .act _

theorem specialForm (form : SpecialForm) (args : List Value) :
    Program fun ev => form.run ev scope args := by
  cases form with
  | quote => exact .act _
  | choose =>
    match args with
    | [condition, yes] =>
      refine .bind (.call condition scope) fun v => ?_
      split
      · exact .call yes scope
      · exact .act _
    | [condition, yes, no] =>
      refine .bind (.call condition scope) fun v => ?_
      split
      · exact .call yes scope
      · exact .call no scope
    | [] | [_] | _ :: _ :: _ :: _ :: _ => exact .act _
  | bind =>
    match args with
    | [] => exact .act _
    | bindings :: body =>
      refine .bind (.act _) fun entries => ?_
      exact .bind (evalBindings scope entries) fun frame => evalSequence _ body
  | lambda => exact .act _
  | eval =>
    match args with
    | [e] => exact .bind (.call e scope) fun v => .call v scope
    | [] | _ :: _ :: _ => exact .act _
  | sequence => exact evalSequence scope args
  | conjunction => exact evalConjunction scope args
  | disjunction => exact evalDisjunction scope args
  | apply =>
    match args with
    | [head, list] =>
      refine .bind (.call head scope) fun f => ?_
      split
      · refine .bind (.call list scope) fun v => ?_
        split
        · exact apply _ _
        · exact .act _
      · exact .act _
    | [] | [_] | _ :: _ :: _ :: _ => exact .act _

theorem evaluateApplication (head : Value) (args : List Value) :
    Program fun ev => MiniLisp.evaluateApplication ev scope head args := by
  refine .bind (.call head scope) fun f => ?_
  split
  · exact .bind (evaluateAll scope args) fun values => apply _ values
  · exact .act _

/-- **One level of evaluation is made up of actions and of calls.** -/
theorem evaluateOnce (e : Value) : Program fun ev => MiniLisp.evaluateOnce ev e scope := by
  cases e with
  | atom a => exact .act _
  | map key value rest =>
    refine .bind (.call value scope) fun v => ?_
    exact .bind (evaluateEntries scope rest) fun es => .act _
  | list es =>
    cases es with
    | nil => exact .act _
    | cons head args =>
      simp only [MiniLisp.evaluateOnce]
      split
      · exact .bind (evaluateAll scope (head :: args)) fun values => .act _
      · refine .bind (.act _) fun _ => ?_
        cases SpecialForm.ofHead? head with
        | some form => exact .bind (.act _) fun _ => specialForm scope form args
        | none => exact evaluateApplication scope head args
  | leaf f => exact .act _

end Parts

end Program

end MiniLisp
