import MiniLisp.Proofs.Evaluation.Correspondence

/-!
# Builtins agree on corresponding arguments

The builtins that neither read nor print are functions from values to a value or an error. Given
corresponding arguments they give corresponding values, or the same error: messages show functions
by their labels only, and comparisons tell corresponding functions apart alike.

The error is always a **misuse**: a wrong number of arguments, an argument of the wrong kind, or
arithmetic without a result. The only other error is that of writing: a list or a map with a
function in it has no text (`serialize_agrees`).
-/

namespace MiniLisp

/-- The error of a call with a wrong number of arguments, with arguments of the wrong kind, or with
arithmetic that has no result. -/
inductive Error.IsMisuse : Error → Prop
  | arity (name : Text) (expected : Arity) (received : Nat) : IsMisuse (.arity name expected received)
  | mismatch (m : Mismatch) : IsMisuse (.mismatch m)
  | arithmetic (fault : ArithmeticFault) : IsMisuse (.arithmetic fault)

/-- A misuse, or a function that was to be written. -/
inductive Error.IsOfBuiltin : Error → Prop
  | misuse {e : Error} (h : e.IsMisuse) : IsOfBuiltin e
  | unwritable (shown : Text) : IsOfBuiltin (.unwritable shown)

/-- The same error on both sides, of some sort. -/
def Error.Shared (sort : Error → Prop) (e e' : Error) : Prop := e = e' ∧ sort e

/-- Both give related results or fail by the same misuse. -/
abbrev AgreeOnMisuse {α β : Type} (r : α → β → Prop) : Except Error α → Except Error β → Prop :=
  Agree (Error.Shared Error.IsMisuse) r

namespace Arithmetic

variable {C : Correspondence} {v w : Value} {vs ws : List Value}

theorem checked_agrees {α : Type} (x : Except ArithmeticFault α) :
    AgreeOnMisuse Eq (checked x) (checked x) := by
  cases x with
  | ok a => exact .ok rfl
  | error fault => exact .error ⟨rfl, .arithmetic _⟩

/-- A numeral holds no function, so it corresponds to itself. -/
theorem numeral_agrees (n : Option Number) : AgreeOnMisuse C.value (numeral n) (numeral n) := by
  refine (checked_agrees _).bind ?_
  rintro a _ rfl
  exact .ok (.atom a)

theorem number_agrees (name : Text) (h : C.value v w) :
    AgreeOnMisuse Eq (number name v) (number name w) := by
  have hshown := Correspondence.display_eq 20 h
  have hmissing : AgreeOnMisuse (Eq (α := Number))
      (.error (.mismatch (.notNumber name (v.display 20))))
      (.error (.mismatch (.notNumber name (w.display 20)))) := .error ⟨by rw [hshown], .mismatch _⟩
  cases h with
  | atom a =>
    refine (checked_agrees a.number?).bind ?_
    rintro found _ rfl
    cases found with
    | some n => exact .ok rfl
    | none => exact hmissing
  | _ => exact hmissing

theorem numbers_agree (name : Text) (h : List.Forall₂ C.value vs ws) :
    AgreeOnMisuse Eq (numbers name vs) (numbers name ws) := by
  have hall : AgreeOnMisuse (List.Forall₂ Eq) (numbers name vs) (numbers name ws) :=
    Agree.mapM h fun _ _ => number_agrees name
  exact hall.mono (fun _ _ h => h) fun _ _ h => by rwa [List.forall₂_eq_eq_eq] at h

/-- What is computed from numbers alone agrees. -/
theorem computed_agrees (n : Except ArithmeticFault (Option Number)) :
    AgreeOnMisuse C.value (checked n >>= numeral) (checked n >>= numeral) := by
  refine (checked_agrees n).bind ?_
  rintro n _ rfl
  exact numeral_agrees n

theorem sum_agrees (h : List.Forall₂ C.value vs ws) :
    AgreeOnMisuse C.value (sum vs) (sum ws) := by
  refine (numbers_agree _ h).bind ?_
  rintro ns _ rfl
  exact computed_agrees _

theorem product_agrees (h : List.Forall₂ C.value vs ws) :
    AgreeOnMisuse C.value (product vs) (product ws) := by
  refine (numbers_agree _ h).bind ?_
  rintro ns _ rfl
  exact computed_agrees _

theorem difference_agrees (h : List.Forall₂ C.value vs ws) :
    AgreeOnMisuse C.value (difference vs) (difference ws) := by
  refine (numbers_agree _ h).bind ?_
  rintro ns _ rfl
  match ns with
  | [] => exact .error ⟨rfl, .arity _ _ _⟩
  | [n] => exact numeral_agrees _
  | n :: m :: ns => exact computed_agrees _

theorem quotient_agrees (h : List.Forall₂ C.value vs ws) :
    AgreeOnMisuse C.value (quotient vs) (quotient ws) := by
  refine (numbers_agree _ h).bind ?_
  rintro ns _ rfl
  match ns with
  | [] => exact .error ⟨rfl, .arity _ _ _⟩
  | [n] => exact computed_agrees _
  | n :: m :: ns => exact computed_agrees _

theorem modulo_agrees {v' w' : Value} (h : C.value v w) (h' : C.value v' w') :
    AgreeOnMisuse C.value (modulo v v') (modulo w w') := by
  refine (number_agrees _ h).bind ?_
  rintro n _ rfl
  refine (number_agrees _ h').bind ?_
  rintro d _ rfl
  match n, d with
  | .int n, .int d =>
    by_cases hd : d = 0
    · simp only [hd, if_true]
      exact .error ⟨rfl, .arithmetic _⟩
    · simp only [hd, if_false]
      exact numeral_agrees _
  | .int _, .real _ => exact .error ⟨rfl, .mismatch _⟩
  | .real _, _ => exact .error ⟨rfl, .mismatch _⟩

theorem comparison_agrees (builtin : Builtin) (accept : Ordering → Bool)
    (h : List.Forall₂ C.value vs ws) :
    AgreeOnMisuse C.value (comparison builtin accept vs) (comparison builtin accept ws) := by
  have hlength := h.length_eq
  unfold comparison
  rw [hlength]
  by_cases hfew : ws.length < 2
  · simp only [hfew, if_true]
    exact .error ⟨rfl, .arity _ _ _⟩
  · simp only [hfew, if_false]
    refine (numbers_agree _ h).bind ?_
    rintro ns _ rfl
    exact .ok (.atom _)

end Arithmetic

namespace Structure

variable {C : Correspondence} {v w : Value} {vs ws : List Value}

theorem wrongKind_agrees {α β : Type} {r : α → β → Prop} (builtin : Builtin) (kind : Kind)
    (h : C.value v w) :
    AgreeOnMisuse r (wrongKind builtin kind v) (wrongKind builtin kind w) := by
  unfold wrongKind
  rw [Correspondence.display_eq 20 h]
  exact .error ⟨rfl, .mismatch _⟩

theorem expectList_agrees (builtin : Builtin) (h : C.value v w) :
    AgreeOnMisuse (List.Forall₂ C.value) (expectList builtin v) (expectList builtin w) := by
  have hwrong := fun (kind : Kind) => wrongKind_agrees (r := List.Forall₂ C.value) builtin kind h
  cases h with
  | list hs => exact .ok hs
  | _ => exact hwrong .list

theorem expectMap_agrees (builtin : Builtin) (h : C.value v w) :
    AgreeOnMisuse (List.Forall₂ C.entry) (expectMap builtin v) (expectMap builtin w) := by
  have hwrong := fun (kind : Kind) => wrongKind_agrees (r := List.Forall₂ C.entry) builtin kind h
  cases h with
  | map hk hv hrest => exact .ok (.cons ⟨hk, hv⟩ hrest)
  | _ => exact hwrong .map

theorem expectAtom_agrees (builtin : Builtin) (h : C.value v w) :
    AgreeOnMisuse Eq (expectAtom builtin v) (expectAtom builtin w) := by
  have hwrong := fun (kind : Kind) => wrongKind_agrees (r := (Eq (α := Text))) builtin kind h
  cases h with
  | atom a => exact .ok rfl
  | _ => exact hwrong .atom

theorem allEqual_eq (h : List.Forall₂ C.value vs ws) : allEqual vs = allEqual ws := by
  unfold allEqual
  induction h with
  | nil => rfl
  | cons hv htail ih =>
    cases htail with
    | nil => rfl
    | cons hv' _ =>
      rw [Arithmetic.chained, Arithmetic.chained, ih, Correspondence.value_same_eq hv hv']

theorem first_agrees (h : C.value v w) : AgreeOnMisuse C.value (first v) (first w) := by
  refine (expectList_agrees .first h).bind fun xs ys hs => ?_
  cases hs with
  | nil => exact .ok (.list .nil)
  | cons hx _ => exact .ok hx

theorem tail_agrees (h : C.value v w) : AgreeOnMisuse C.value (tail v) (tail w) := by
  refine (expectList_agrees .tail h).bind fun xs ys hs => ?_
  cases hs with
  | nil => exact .ok (.list .nil)
  | cons _ hxs => exact .ok (.list hxs)

theorem cons_agrees {v' w' : Value} (h : C.value v w) (h' : C.value v' w') :
    AgreeOnMisuse C.value (cons v v') (cons w w') :=
  (expectList_agrees .cons h').bind fun _ _ hs => .ok (.list (.cons h hs))

theorem count_agrees (h : C.value v w) : AgreeOnMisuse C.value (count v) (count w) := by
  have hshown := Correspondence.display_eq 20 h
  cases h with
  | atom a => exact Arithmetic.numeral_agrees _
  | list hs =>
    rw [count, count, hs.length_eq]
    exact Arithmetic.numeral_agrees _
  | map _ _ hrest =>
    rw [count, count, hrest.length_eq]
    exact Arithmetic.numeral_agrees _
  | leaf _ =>
    rw [count, count, hshown]
    exact .error ⟨rfl, .mismatch _⟩

/-- An entry that is looked for is found on both sides, or else both give the default. -/
theorem getD_related {x y : Option Value} {default default' : Value} (h : Option.Rel C.value x y)
    (hd : C.value default default') : C.value (x.getD default) (y.getD default') := by
  cases h with
  | some h => exact h
  | none => exact hd

theorem get_agrees (h : List.Forall₂ C.value vs ws) :
    AgreeOnMisuse C.value (get vs) (get ws) := by
  match h with
  | .nil => exact .error ⟨rfl, .arity _ _ _⟩
  | .cons _ .nil => exact .error ⟨rfl, .arity _ _ _⟩
  | .cons hmap (.cons hkey .nil) =>
    refine (expectMap_agrees .get hmap).bind fun es es' hes => ?_
    exact .ok (getD_related (Correspondence.entry? hkey hes) (.list .nil))
  | .cons hmap (.cons hkey (.cons hdefault .nil)) =>
    refine (expectMap_agrees .get hmap).bind fun es es' hes => ?_
    exact .ok (getD_related (Correspondence.entry? hkey hes) hdefault)
  | .cons _ (.cons _ (.cons _ (.cons _ hrest))) =>
    simp only [get, List.length_cons, hrest.length_eq]
    exact .error ⟨rfl, .arity _ _ _⟩

theorem keys_agrees (h : C.value v w) : AgreeOnMisuse C.value (keys v) (keys w) := by
  refine (expectMap_agrees .keys h).bind fun es es' hes => .ok (.list ?_)
  rw [List.forall₂_map_left_iff, List.forall₂_map_right_iff]
  exact hes.imp fun e e' he => by obtain ⟨hk, -⟩ := he; exact hk

theorem values_agrees (h : C.value v w) : AgreeOnMisuse C.value (values v) (values w) := by
  refine (expectMap_agrees .values h).bind fun es es' hes => .ok (.list ?_)
  rw [List.forall₂_map_left_iff, List.forall₂_map_right_iff]
  exact hes.imp fun e e' he => by obtain ⟨-, hv⟩ := he; exact hv

theorem isAtom_eq (h : C.value v w) : isAtom v = isAtom w := by
  cases h <;> rfl

theorem isList_eq (h : C.value v w) : isList v = isList w := by
  cases h <;> rfl

theorem isMap_eq (h : C.value v w) : isMap v = isMap w := by
  cases h <;> rfl

theorem isTree_eq (h : C.value v w) : v.isTree = w.isTree := by
  cases h <;> rfl

theorem concat_agrees (h : List.Forall₂ C.value vs ws) :
    AgreeOnMisuse C.value (concat vs) (concat ws) := by
  refine (Agree.mapM h fun _ _ => expectAtom_agrees .concat).bind fun ts us hts => ?_
  rw [List.forall₂_eq_eq_eq] at hts
  rw [hts]
  exact .ok (.atom _)

/-- **Corresponding values have the same text**, or the same function keeps both from having one. -/
theorem serialize_agrees (h : C.value v w) :
    Agree (Error.Shared Error.IsOfBuiltin) Eq v.serialize w.serialize := by
  have hdatum := Tree.Related.toDatum h
  unfold Value.serialize Value.datum
  generalize v.toDatum = x, w.toDatum = y at hdatum
  cases hdatum with
  | ok hd => exact .ok (by rw [hd])
  | error hf => exact .error ⟨congrArg Error.unwritable (Correspondence.label_eq hf), .unwritable _⟩

theorem toText_agrees (h : C.value v w) :
    Agree (Error.Shared Error.IsOfBuiltin) C.value (toText v) (toText w) := by
  have hshown := Correspondence.display_eq 0 h
  have hwritten : Agree (Error.Shared Error.IsOfBuiltin) C.value
      (do return .atom (Atom.quoted (← v.serialize)))
      (do return .atom (Atom.quoted (← w.serialize))) := by
    refine (serialize_agrees h).bind ?_
    rintro t _ rfl
    exact .ok (.atom _)
  cases h with
  | leaf _ =>
    rw [toText, toText, hshown]
    exact .error ⟨rfl, .misuse (.mismatch _)⟩
  | _ => exact hwritten

theorem shown_agrees (h : C.value v w) :
    Agree (Error.Shared Error.IsOfBuiltin) Eq (shown v) (shown w) := by
  have hwritten := serialize_agrees h
  cases h with
  | atom a => exact .ok rfl
  | leaf hf => exact .ok (Correspondence.label_eq hf)
  | _ => exact hwritten

end Structure

end MiniLisp
