import MiniLisp.Evaluation.SpecialForm

/-!
# Evaluation

Symbols are looked up, other atoms stand for themselves, maps evaluate their values and keep their
keys. A list whose head is a literal is data, and its items are evaluated one by one; any other
non-empty list is a special form or the application of its head, which is what the step budget
counts. `evaluateOnce` is one level of this, given how the parts are evaluated; `evaluate` ties the
knot, one level of depth at a time, and fails when there is no depth left.
-/

namespace MiniLisp

/-- Evaluate each expression in order. -/
def evaluateAll (evaluate : Evaluate) (scope : Scope) (es : List Value) : Run (List Value) :=
  es.mapM fun e => evaluate e scope

/-- Evaluate the value of each entry in order. -/
def evaluateEntries (evaluate : Evaluate) (scope : Scope) (entries : List (Value × Value)) :
    Run (List (Value × Value)) :=
  entries.mapM fun e => do return (e.1, ← evaluate e.2 scope)

/-- Apply the value of `head` to the values of `args`. -/
def evaluateApplication (evaluate : Evaluate) (scope : Scope) (head : Value) (args : List Value) :
    Run Value := do
  match ← evaluate head scope with
  | .leaf f => do
    let values ← evaluateAll evaluate scope args
    f.apply evaluate values
  | v => Run.fail (.notCallable (v.display 40))

/-- Evaluate an expression, its parts being evaluated by `evaluate`. -/
def evaluateOnce (evaluate : Evaluate) : Evaluate
  | .atom a, scope =>
    if a.isSymbol then
      match scope.lookup? a.text with
      | some v => return v
      | none => Run.fail (.unbound a.text)
    else return .atom a
  | .map key value rest, scope => do
    let value ← evaluate value scope
    let rest ← evaluateEntries evaluate scope rest
    return .map key value rest
  | .list [], _ => return .list []
  | .list (head :: args), scope =>
    if head.isLiteral then do
      let values ← evaluateAll evaluate scope (head :: args)
      return .list values
    else do
      Run.step
      match SpecialForm.ofHead? head with
      | some form => do
        Run.note (.specialForm form.name)
        form.run evaluate scope args
      | none => evaluateApplication evaluate scope head args
  | .leaf f, _ => return .leaf f

/-- Evaluate an expression with `room` levels of depth left. -/
def evaluate : (room : Nat) → Evaluate
  | 0 => fun _ _ => Run.tooDeep
  | room + 1 => evaluateOnce (evaluate room)

/-- Evaluate an expression with all the depth that the limits allow. -/
def Run.evaluate : Evaluate := fun e scope => do
  MiniLisp.evaluate (← Run.limits).depth.toNat e scope

/-- Apply a value to other values, as the evaluation of an application would. -/
def Run.apply (f : Value) (args : List Value) : Run Value := do
  match f with
  | .leaf f => f.apply Run.evaluate args
  | v => Run.fail (.notCallable v.inspect)

end MiniLisp
