import MiniLisp.Error
import MiniLisp.Event
import MiniLisp.Value

/-!
# Runs

An evaluation runs under `Limits` and makes `Progress`: it counts applications, prints, logs, and
numbers the closures it makes. A run that fails keeps the progress made so far, so `Run α` is a
function from limits and progress to a result **and** the progress after it.

A run fails only as it says. Two things that could end it from outside are assumed not to: the
output takes any text, lone surrogates included, and the stack has room for whatever nests within
the limits and for every tree that is built on the way.
-/

namespace MiniLisp

/-- What an evaluation may use. -/
structure Limits where
  /-- How many applications it may take, if that is limited. -/
  budget : Option Int
  /-- How deep it may nest. -/
  depth : Int
  /-- How deep the parentheses of a text may nest that it reads. -/
  nesting : Except SettingError Int

/-- What an evaluation has done so far. -/
structure Progress where
  /-- Applications counted. -/
  steps : Nat
  /-- Texts printed, the latest first. -/
  printed : List Text
  /-- What has happened, the latest first. -/
  events : List Event
  /-- Closures made. -/
  closures : Nat

namespace Progress

def start : Progress := ⟨0, [], [], 0⟩

/-- The same with further events, the latest first. -/
def record (p : Progress) (events : List Event) : Progress := { p with events := events ++ p.events }

/-- Everything printed, in order. -/
def output (p : Progress) : Text := p.printed.reverse.flatten

end Progress

/-- An action under limits that makes progress and may fail. -/
def Run (α : Type) : Type := Limits → Progress → Except Error α × Progress

namespace Run

variable {α β : Type}

instance : Monad Run where
  pure a := fun _ p => (.ok a, p)
  bind x f := fun l p =>
    match x l p with
    | (.ok a, p) => f a l p
    | (.error e, p) => (.error e, p)

@[simp] theorem pure_apply (a : α) (l : Limits) (p : Progress) :
    (pure a : Run α) l p = (.ok a, p) := rfl

theorem bind_apply (x : Run α) (f : α → Run β) (l : Limits) (p : Progress) :
    (x >>= f) l p =
      match x l p with
      | (.ok a, p) => f a l p
      | (.error e, p) => (.error e, p) := rfl

instance : LawfulMonad Run :=
  LawfulMonad.mk' Run
    (fun x => by
      funext l p
      change (match x l p with
        | (.ok a, p) => (.ok a, p)
        | (.error e, p) => (.error e, p)) = x l p
      rcases x l p with ⟨_ | _, _⟩ <;> rfl)
    (fun _ _ => rfl)
    (fun x f g => by
      funext l p
      simp only [bind_apply]
      rcases x l p with ⟨_ | _, _⟩ <;> rfl)

def fail (e : Error) : Run α := fun _ p => (.error e, p)

/-- A result that needs neither limits nor progress. -/
def ofExcept : Except Error α → Run α
  | .ok a => pure a
  | .error e => fail e

instance : MonadLift (Except Error) Run := ⟨ofExcept⟩

/-- The limits of the run. -/
def limits : Run Limits := fun l p => (.ok l, p)

def modify (f : Progress → Progress) : Run Unit := fun _ p => (.ok (), f p)

/-- Log an event. -/
def note (e : Event) : Run Unit := modify fun p => p.record [e]

/-- Print a line; no output refuses it. -/
def printLine (t : Text) : Run Unit :=
  modify fun p => { p with printed := (t ++ [CodePoint.ofChar '\n']) :: p.printed }

/-- The number of a new closure. -/
def newClosure : Run Nat := fun _ p => (.ok p.closures, { p with closures := p.closures + 1 })

/-- Count an application, and fail if that is one too many. -/
def step : Run Unit := fun l p =>
  let p := { p with steps := p.steps + 1 }
  match l.budget with
  | none => (.ok (), p)
  | some b =>
    if p.steps > b then (.error (.budgetExceeded b), p.record [.budgetExhausted b])
    else (.ok (), p)

/-- Fail because evaluation nests too deep. -/
def tooDeep : Run α := do
  let l ← limits
  note (.depthReached l.depth)
  fail (.depthExceeded l.depth)

end Run

end MiniLisp
