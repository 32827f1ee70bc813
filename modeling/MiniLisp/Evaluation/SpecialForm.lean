import MiniLisp.Evaluation.Apply

/-!
# Special forms

A list that starts with the name of a special form is not an application: the form decides which of
its parts are evaluated, and in which scope. The names cannot be bound to anything else.
-/

namespace MiniLisp

/-- The special forms: `quote`, `if`, `let`, `lambda`, `eval`, `do`, `and`, `or` and `apply`. -/
inductive SpecialForm
  | quote
  | choose
  | bind
  | lambda
  | eval
  | sequence
  | conjunction
  | disjunction
  | apply
  deriving DecidableEq

namespace SpecialForm

def all : List SpecialForm :=
  [.quote, .choose, .bind, .lambda, .eval, .sequence, .conjunction, .disjunction, .apply]

def name : SpecialForm → Text
  | .quote => "quote"
  | .choose => "if"
  | .bind => "let"
  | .lambda => "lambda"
  | .eval => "eval"
  | .sequence => "do"
  | .conjunction => "and"
  | .disjunction => "or"
  | .apply => "apply"

def ofName? (name : Text) : Option SpecialForm := all.find? fun f => f.name = name

/-- The special form that a list with this head is. -/
def ofHead? : Value → Option SpecialForm
  | .atom a => ofName? a.text
  | _ => none

/-- The form called on a number of arguments that it does not take. -/
def wrongArity {α : Type} (form : SpecialForm) (expected : Arity) (args : List Value) : Run α :=
  Run.fail (.arity form.name expected args.length)

/-- The symbol that a value is. -/
def symbol? : Value → Option Text
  | .atom a => if a.isSymbol then some a.text else none
  | _ => none

variable (evaluate : Evaluate)

/-- Evaluate expressions in order; the last one gives the value, the empty list if there is none. -/
def evalSequence (scope : Scope) : List Value → Run Value
  | [] => return Tree.nil
  | [e] => evaluate e scope
  | e :: es => do
    let _ ← evaluate e scope
    evalSequence scope es

/-- Evaluate expressions in order up to the first one that is false. -/
def evalConjunction (scope : Scope) : List Value → Run Value
  | [] => return Value.ofBool true
  | [e] => evaluate e scope
  | e :: es => do
    let v ← evaluate e scope
    if v.isTrue then evalConjunction scope es else return v

/-- Evaluate expressions in order up to the first one that is true. -/
def evalDisjunction (scope : Scope) : List Value → Run Value
  | [] => return Value.ofBool false
  | e :: es => do
    let v ← evaluate e scope
    if v.isTrue then return v else evalDisjunction scope es

/-- Evaluate the values of bindings in order, in the scope around them. -/
def evalBindings (scope : Scope) : List (Value × Value) → Run (Bindings Value)
  | [] => return []
  | (name, e) :: rest =>
    match symbol? name with
    | none => Run.fail (.mismatch (.binder SpecialForm.bind.name name.inspect))
    | some text => do
      let v ← evaluate e scope
      let vs ← evalBindings scope rest
      return (text, v) :: vs

/-- The names of parameters, which have to be distinct symbols. -/
def parameterNames : Value → Except Error (List Text)
  | .list params => do
    let names ← params.mapM fun p =>
      match symbol? p with
      | some text => .ok text
      | none => .error (.mismatch (.parameter p.inspect))
    if names.eraseDups.length = names.length then return names
    else throw (.mismatch (.repeatedParameter names))
  | v => .error (.mismatch (.parameters v.inspect))

/-- The body of a function with these forms: nothing, one form, or a sequence. -/
def functionBody : List Value → Value
  | [] => .list [.atom (Atom.bare SpecialForm.quote.name), Tree.nil]
  | [e] => e
  | es => .list (.atom (Atom.bare SpecialForm.sequence.name) :: es)

/-- The entries that `let` binds: a map, or the empty list for none. -/
def bindingEntries : Value → Except Error (List (Value × Value))
  | .list [] => .ok []
  | .map k v rest => .ok ((k, v) :: rest)
  | v => .error (.mismatch (.bindings v.inspect))

/-- Evaluate a special form with these parts. -/
def run (scope : Scope) (args : List Value) : SpecialForm → Run Value
  | .quote =>
    match args with
    | [e] => return e
    | _ => wrongArity .quote (.exactly 1) args
  | .choose =>
    match args with
    | [condition, yes] => do
      if (← evaluate condition scope).isTrue then evaluate yes scope else return Tree.nil
    | [condition, yes, no] => do
      if (← evaluate condition scope).isTrue then evaluate yes scope else evaluate no scope
    | _ => wrongArity .choose (.either 2 3) args
  | .bind =>
    match args with
    | bindings :: body => do
      let entries ← bindingEntries bindings
      let frame ← evalBindings evaluate scope entries
      evalSequence evaluate (scope.extend frame) body
    | [] => wrongArity .bind (.atLeast 1) args
  | .lambda =>
    match args with
    | params :: body => do
      let names ← parameterNames params
      return .leaf (.closure (← Run.newClosure) names (functionBody body) scope)
    | [] => wrongArity .lambda (.atLeast 1) args
  | .eval =>
    match args with
    | [e] => do evaluate (← evaluate e scope) scope
    | _ => wrongArity .eval (.exactly 1) args
  | .sequence => evalSequence evaluate scope args
  | .conjunction => evalConjunction evaluate scope args
  | .disjunction => evalDisjunction evaluate scope args
  | .apply =>
    match args with
    | [head, list] => do
      match ← evaluate head scope with
      | .leaf f =>
        match ← evaluate list scope with
        | .list items => f.apply evaluate items
        | v => Run.fail (.mismatch (.arguments v.inspect))
      | v => Run.fail (.notCallable v.inspect)
    | _ => wrongArity .apply (.exactly 2) args

end SpecialForm

end MiniLisp
