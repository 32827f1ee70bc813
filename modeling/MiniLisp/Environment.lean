import MiniLisp.Text.Basic

/-!
# Environments

An environment is a chain of frames from the innermost outwards; a frame binds names to values, each
name once, in the order in which they were first bound. Frames never change: new names are bound in
a new frame in front of the chain (`extend`).

* `find?`, `lookup?`: the innermost binding of a name, `names`: every name that has one.
* `lookup?_extend`: a new frame answers for its own names, the old chain for all others.
-/

namespace MiniLisp

/-- Keys and their values, in the order in which the keys were first put. -/
abbrev Assoc (κ β : Type) := List (κ × β)

namespace Assoc

variable {κ β : Type} [DecidableEq κ]

def get? (key : κ) (bs : Assoc κ β) : Option β :=
  (bs.find? fun b => b.1 = key).map Prod.snd

/-- Put a value under a key; a key that is there already keeps its place. -/
def put (key : κ) (value : β) : Assoc κ β → Assoc κ β
  | [] => [(key, value)]
  | b :: bs => if b.1 = key then (b.1, value) :: bs else b :: put key value bs

/-- Put values under keys one after the other. -/
def ofList (bs : List (κ × β)) : Assoc κ β :=
  bs.foldl (fun frame b => put b.1 b.2 frame) []

theorem get?_put (key other : κ) (value : β) (bs : Assoc κ β) :
    get? other (put key value bs) = if other = key then some value else get? other bs := by
  induction bs with
  | nil => by_cases h : other = key <;> simp [put, get?, h, eq_comm]
  | cons b bs ih =>
    by_cases hb : b.1 = key
    · by_cases h : other = key
      · simp [put, get?, hb, h]
      · simp [put, get?, hb, h, Ne.symm h]
    · by_cases h : b.1 = other
      · have hne : ¬ other = key := fun e => hb (h.trans e)
        simp [put, get?, h, hne]
      · have hput : get? other (put key value (b :: bs)) = get? other (put key value bs) := by
          simp [put, get?, hb, h]
        have hget : get? other (b :: bs) = get? other bs := by simp [get?, h]
        rw [hput, hget, ih]

end Assoc

/-- Names and their values. -/
abbrev Bindings (β : Type) := Assoc Text β

/-- What a binding is given under: a text, or an atom that stands for its text. -/
inductive BindingKey
  | text (t : Text)
  | atom (t : Text)
  deriving DecidableEq

def BindingKey.name : BindingKey → Text
  | .text t => t
  | .atom t => t

namespace Bindings

variable {β : Type}

def names (bs : Bindings β) : List Text := bs.map Prod.fst

/-- The bindings of a mapping. A text and an atom are different keys of the mapping, even if they
come to the same name in the end; then the one put later decides. -/
def ofKeyed (bs : List (BindingKey × β)) : Bindings β :=
  Assoc.ofList ((Assoc.ofList bs).map fun b => (b.1.name, b.2))

end Bindings

/-- A chain of frames: the innermost one and those around it. -/
structure Environment (β : Type) where
  frame : List (Text × β)
  outer : List (List (Text × β))

namespace Environment

variable {β : Type}

/-- An environment of one frame. -/
def root (bs : List (Text × β)) : Environment β := ⟨Assoc.ofList bs, []⟩

/-- A new frame in front of the chain. -/
def extend (env : Environment β) (bs : List (Text × β)) : Environment β :=
  ⟨Assoc.ofList bs, env.frame :: env.outer⟩

/-- The part of a chain that starts with the innermost frame that binds `name`. -/
def findFrom (name : Text) (frame : Bindings β) : List (Bindings β) → Option (Environment β)
  | [] => if (Assoc.get? name frame).isSome then some ⟨frame, []⟩ else none
  | next :: outer =>
    if (Assoc.get? name frame).isSome then some ⟨frame, next :: outer⟩ else findFrom name next outer

/-- The environment from the innermost frame on that binds `name`. -/
def find? (env : Environment β) (name : Text) : Option (Environment β) :=
  findFrom name env.frame env.outer

/-- The value of the innermost binding of `name`. -/
def lookup? (env : Environment β) (name : Text) : Option β :=
  (env.find? name).bind fun e => Assoc.get? name e.frame

def contains (env : Environment β) (name : Text) : Bool := (env.find? name).isSome

/-- Every bound name once, at its innermost binding. -/
def names (env : Environment β) : List Text :=
  ((env.frame :: env.outer).flatMap Bindings.names).eraseDups

/-- How many frames there are around the innermost one. -/
def depth (env : Environment β) : Nat := env.outer.length

/-- The innermost frame, with a hint if there are more. -/
def describe (inspect : β → Text) (env : Environment β) : Text :=
  let bindings := env.frame.map fun b => b.1 ++ ": " ++ inspect b.2
  let more : Text := if env.outer.isEmpty then "" else " -> ..."
  "\x7b" ++ Text.join ", " bindings ++ "\x7d" ++ more

/-- Depth and size. -/
def summary (env : Environment β) : Text :=
  "<Environment depth=" ++ Text.ofNat env.depth ++ " names=" ++
    Text.ofNat env.frame.length ++ ">"

/-- A new frame answers for the names it binds, and the old chain for all others. -/
theorem lookup?_extend (env : Environment β) (bs : List (Text × β)) (name : Text) :
    (env.extend bs).lookup? name =
      (Assoc.get? name (Assoc.ofList bs)).or (env.lookup? name) := by
  simp only [lookup?, find?, extend, findFrom]
  cases h : Assoc.get? name (Assoc.ofList bs) with
  | none => simp
  | some v => simp [h]

end Environment

end MiniLisp
