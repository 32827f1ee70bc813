import MiniLisp.Evaluation.Evaluate

/-!
# Sessions

A session keeps a scope and evaluates documents in it. Binding a name puts a new frame in front of
the scope, so closures made earlier keep the scope they know. Every evaluation counts its steps
anew, while output, events and closures go on through the session. A step that fails leaves the
scope as it was, except that definitions bind their names one by one, and those before the failure
stay bound.
-/

namespace MiniLisp

/-- The limits of an evaluation: those given, and the settings for the rest. -/
def Variables.limits (v : Variables) (budget depth : Option Int) : Except SettingError Limits := do
  let budget ← match budget with
    | some b => .ok (some b)
    | none => v.stepBudget
  let depth ← match depth with
    | some d => .ok d
    | none => v.maxEvalDepth
  return ⟨budget, depth, v.maxNesting⟩

structure Session where
  scope : Scope
  /-- The step budget of every evaluation, if one is given. -/
  budget : Option Int
  /-- The depth limit of every evaluation, if one is given. -/
  depth : Option Int
  progress : Progress

/-- One step of a session. It may fail, and leaves a session either way. -/
abbrev SessionStep := ExceptT Error (StateM Session)

namespace Session

variable (vars : Variables)

/-- Take over what came of reading a document. -/
def absorb (outcome : Source.Outcome) : SessionStep Datum := do
  modify fun s => { s with progress := s.progress.record outcome.2 }
  outcome.1

/-- Read a document. -/
def read (source : Source) : SessionStep Datum := absorb (source.read vars.maxNesting)

/-- Evaluate a value in the scope of the session, under limits of its own. -/
def evaluate (e : Value) : SessionStep Value := do
  let s ← get
  match vars.limits s.budget s.depth with
  | .error err => throw (.setting err)
  | .ok limits =>
    let (result, progress) := Run.evaluate e s.scope limits { s.progress with steps := 0 }
    set { s with progress }
    result

/-- Read a document and evaluate it. -/
def eval (source : Source) : SessionStep Value := do evaluate vars (← read vars source)

/-- Read a stored document and evaluate it. -/
def load (source : Source) : SessionStep Value := do
  evaluate vars (← absorb (source.load vars.maxNesting))

/-- Bind a name in a new frame. -/
def bind (name : Text) (value : Value) : SessionStep Unit :=
  modify fun s => { s with scope := s.scope.extend [(name, value)] }

/-- Bind what a value names. Only an atom names something. -/
def bindNamed (name value : Value) : SessionStep Unit := do bind (← name.bindingKey).name value

/-- Bind the key of each entry to the value of its other side, each in the scope of the bindings
before it. -/
def bindAll : List (Datum × Datum) → SessionStep Unit
  | [] => return ()
  | (key, e) :: rest =>
    match SpecialForm.symbol? key with
    | none => throw (.mismatch (.binder "define" (Value.inspect key)))
    | some name => do
      bind name (← evaluate vars e)
      bindAll rest

/-- Read a map of definitions and bind them. -/
def define (source : Source) : SessionStep Unit := do
  match ← read vars source with
  | .map key value rest => bindAll vars ((key, value) :: rest)
  | _ => throw (.mismatch .definitions)

/-- The value of a name. -/
def lookup (name : Text) : SessionStep Value := do
  match (← get).scope.lookup? name with
  | some v => return v
  | none => throw (.unbound name)

end Session

end MiniLisp
