import MiniLisp.Evaluation.Evaluate
import MiniLisp.Proofs.Tree.Related

/-!
# Corresponding values and scopes

To compare two evaluations one has to say which functions and which scopes take each other's place
in them. A `Correspondence` says so, and promises what evaluation relies on: corresponding functions
do corresponding things and are told apart alike, corresponding scopes give corresponding values to
the same names. Values then correspond if they are related as trees.

Evaluations of the same expression in the same scope are compared by `Correspondence.equality`.
-/

namespace MiniLisp

/-- Two functions that do the same: copies of one builtin, or closures with the same parameters,
given what it is for bodies and scopes to correspond. -/
inductive Callable.Corresponds (value : Value → Value → Prop) (scope : Scope → Scope → Prop) :
    Callable → Callable → Prop
  | builtin (copy copy' : Nat) (op : Builtin) :
      Callable.Corresponds value scope (.builtin copy op) (.builtin copy' op)
  | closure (serial serial' : Nat) (params : List Text) {body body' : Value} {σ τ : Scope}
      (hbody : value body body') (hscope : scope σ τ) :
      Callable.Corresponds value scope (.closure serial params body σ)
        (.closure serial' params body' τ)

/-- Which functions and scopes take each other's place in two evaluations. -/
structure Correspondence where
  callable : Callable → Callable → Prop
  scope : Scope → Scope → Prop
  corresponds : ∀ {f g}, callable f g → Callable.Corresponds (Tree.Related callable) scope f g
  same_eq : ∀ {f g f' g'}, callable f g → callable f' g' → f.same f' = g.same g'
  lookup : ∀ {σ τ}, scope σ τ → ∀ name,
    Option.Rel (Tree.Related callable) (σ.lookup? name) (τ.lookup? name)
  extend : ∀ {σ τ} {bs cs : Bindings Value}, scope σ τ →
    List.Forall₂ (fun b c => b.1 = c.1 ∧ Tree.Related callable b.2 c.2) bs cs →
    scope (σ.extend bs) (τ.extend cs)

namespace Correspondence

/-- Everything corresponds to itself and to nothing else. -/
def equality : Correspondence where
  callable := Eq
  scope := Eq
  corresponds := by
    rintro f _ rfl
    cases f with
    | builtin copy op => exact .builtin copy copy op
    | closure serial params body σ =>
      exact .closure serial serial params (.refl (fun _ => rfl) body) rfl
  same_eq := by
    rintro f _ f' _ rfl rfl
    rfl
  lookup := by
    rintro σ _ rfl name
    cases σ.lookup? name with
    | none => exact .none
    | some v => exact .some (.refl (fun _ => rfl) v)
  extend := by
    rintro σ _ bs cs rfl h
    have hbs : bs = cs :=
      Tree.Related.eq_of_entries (h.imp fun b c hb => ⟨hb.1, hb.2.eq⟩)
    rw [hbs]

variable (C : Correspondence)

/-- Trees of the same shape with the same atoms and corresponding functions. -/
abbrev value : Value → Value → Prop := Tree.Related C.callable

/-- Both sides of two entries correspond. -/
abbrev entry : Value × Value → Value × Value → Prop := Tree.RelatedEntry C.callable

variable {C}

theorem label_eq {f g : Callable} (h : C.callable f g) : f.label = g.label := by
  cases C.corresponds h <;> rfl

variable {v w v' w' : Value}

theorem inspect_eq (h : C.value v w) : v.inspect = w.inspect :=
  Tree.Related.inspect_eq h fun _ _ => label_eq

theorem display_eq (width : Int) (h : C.value v w) : v.display width = w.display width :=
  Tree.Related.display_eq h (fun _ _ => label_eq) width

/-- Corresponding values compare alike. -/
theorem value_same_eq (h : C.value v w) (h' : C.value v' w') : v.same v' = w.same w' :=
  Tree.Related.same_eq h h' fun _ _ _ _ => C.same_eq

/-- Corresponding keys find corresponding entries. -/
theorem entry? {key key' : Value} {es es' : List (Value × Value)} (hkey : C.value key key')
    (h : List.Forall₂ C.entry es es') :
    Option.Rel C.value (Value.entry? key es) (Value.entry? key' es') :=
  Tree.Related.find? hkey h fun _ _ _ _ => C.same_eq

theorem equality_value : equality.value v w ↔ v = w := by
  constructor
  · intro h
    exact Tree.Related.eq h
  · rintro rfl
    exact .refl (fun _ => rfl) v

theorem equality_refl (v : Value) : equality.value v v := equality_value.2 rfl

/-- Outcomes with equal values are equal. -/
theorem eq_of_agree {x y : Except Error Value} (h : Agree Eq equality.value x y) : x = y := by
  cases h with
  | ok h => rw [equality_value.1 h]
  | error h => rw [h]

end Correspondence

end MiniLisp
