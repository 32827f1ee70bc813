import MiniLisp.Proofs.Datum.Faithful
import MiniLisp.Proofs.Evaluation.Writing
import MiniLisp.Proofs.Number.Spelling

/-!
# What builtins make values from

A value is **well-formed** if its atoms are, keys included, and its closures have distinct symbols
for parameters, a well-formed body, and well-formed values in the scope that they remember. That a
map has an entry needs no saying, since a tree has no maps without one.

`Yields` says of a computation what its result is like, if there is one, and passes from the parts
of a computation to the whole. **A builtin makes its value from well-formed atoms and from parts of
its arguments**: numerals are bare words, texts are quoted, what is read is well-formed, and there
are no new functions. So the value has only atoms with the property `p` and functions with the
property `q` if the arguments do and every well-formed atom has the property `p`.
-/

namespace MiniLisp

/-- The text is a symbol: a bare word that is no numeral. -/
def Text.IsSymbol (name : Text) : Prop :=
  (Atom.bare name).WellFormed ∧ (Atom.bare name).isSymbol = true

/-- A function that is well-formed: a builtin, or a closure with well-formed parts. -/
inductive Callable.WellFormed : Callable → Prop
  | builtin (copy : Nat) (op : Builtin) : WellFormed (.builtin copy op)
  | closure {serial : Nat} {params : List Text} {body : Value} {scope : Scope}
      (hdistinct : params.Nodup) (hparams : ∀ name ∈ params, name.IsSymbol)
      (hbody : Tree.All Atom.WellFormed Callable.WellFormed body)
      (hscope : ∀ frame ∈ scope.frame :: scope.outer, ∀ b ∈ frame,
        Tree.All Atom.WellFormed Callable.WellFormed b.2) :
      WellFormed (.closure serial params body scope)

/-- Every atom and every function in the value is well-formed. -/
abbrev Value.WellFormed : Value → Prop := Tree.All Atom.WellFormed Callable.WellFormed

/-- Every binding in the scope has a well-formed value, also those that cannot be seen. -/
def Scope.WellFormed (σ : Scope) : Prop :=
  ∀ frame ∈ σ.frame :: σ.outer, ∀ b ∈ frame, b.2.WellFormed

/-! ## Results of computations -/

/-- The result has the property, if there is one. -/
def Yields {ε α : Type} (P : α → Prop) (x : Except ε α) : Prop := ∀ a, x = .ok a → P a

namespace Yields

variable {ε α β : Type} {P : α → Prop} {Q : β → Prop}

theorem ok {a : α} (h : P a) : Yields P (.ok a : Except ε α) := by
  rintro _ ⟨⟩
  exact h

theorem error (e : ε) : Yields P (.error e : Except ε α) := fun _ h => nomatch h

theorem bind {x : Except ε α} {f : α → Except ε β} (hx : Yields P x)
    (hf : ∀ a, P a → Yields Q (f a)) : Yields Q (x >>= f) := by
  cases x with
  | ok a => exact hf a (hx a rfl)
  | error e => exact error e

/-- What the first step gives may be no matter. -/
theorem andThen {x : Except ε α} {f : α → Except ε β} (hf : ∀ a, Yields Q (f a)) :
    Yields Q (x >>= f) :=
  bind (P := fun _ => True) (fun _ _ => trivial) fun a _ => hf a

theorem mapM {f : α → Except ε β} {xs : List α} (h : ∀ a ∈ xs, Yields Q (f a)) :
    Yields (fun bs => ∀ b ∈ bs, Q b) (xs.mapM f) := by
  induction xs with
  | nil => exact ok (by simp)
  | cons a xs ih =>
    obtain ⟨ha, hxs⟩ := List.forall_mem_cons.1 h
    rw [List.mapM_cons]
    refine ha.bind fun b hb => (ih hxs).bind fun bs hbs => ?_
    exact ok (List.forall_mem_cons.2 ⟨hb, hbs⟩)

end Yields

/-- Whatever the limits and the progress are, the result of the run has the property. -/
def Run.Yields {α : Type} (P : α → Prop) (x : Run α) : Prop := ∀ l p, MiniLisp.Yields P (x l p).1

theorem Run.Yields.ofExcept {α : Type} {P : α → Prop} {x : Except Error α}
    (h : MiniLisp.Yields P x) : Run.Yields P (Run.ofExcept x) := by
  intro l p
  cases x with
  | ok a => exact h
  | error e => exact .error e

/-! ## Builtins -/

namespace Arithmetic

section

variable {P : Value → Prop} (hP : ∀ n, Yields P (numeral n))

include hP

/-- What holds of all numerals holds of all results. -/
theorem yields_sum (args : List Value) : Yields P (sum args) :=
  .andThen fun _ => .andThen hP

theorem yields_product (args : List Value) : Yields P (product args) :=
  .andThen fun _ => .andThen hP

theorem yields_difference (args : List Value) : Yields P (difference args) := by
  refine .andThen fun ns => ?_
  match ns with
  | [] => exact .error _
  | [n] => exact hP _
  | n :: m :: ns => exact .andThen hP

theorem yields_quotient (args : List Value) : Yields P (quotient args) := by
  refine .andThen fun ns => ?_
  match ns with
  | [] => exact .error _
  | [n] => exact .andThen hP
  | n :: m :: ns => exact .andThen hP

theorem yields_modulo (n d : Value) : Yields P (modulo n d) := by
  refine .andThen fun n => .andThen fun d => ?_
  match n, d with
  | .int n, .int d =>
    dsimp only
    split
    · exact .error _
    · exact hP _
  | .int _, .real _ => exact .error _
  | .real _, _ => exact .error _

end

/-- The numeral of a result is a bare atom. -/
theorem yields_of_write {P : Value → Prop} {n : Option Number}
    (h : ∀ t, Number.write n = .ok t → P (.atom (Atom.bare t))) : Yields P (numeral n) := by
  cases hn : Number.write n with
  | error fault =>
    have hnumeral : numeral n = .error (.arithmetic fault) := by
      rw [numeral, Atom.ofNumber, hn]
      rfl
    exact hnumeral ▸ .error _
  | ok t =>
    have hnumeral : numeral n = .ok (.atom (Atom.bare t)) := by
      rw [numeral, Atom.ofNumber, hn]
      rfl
    exact hnumeral ▸ .ok (h t hn)

end Arithmetic

section Builtins

variable {p : Atom → Prop} {q : Callable → Prop} (hp : ∀ a, a.WellFormed → p a)

namespace Arithmetic

include hp

/-- **The numeral of a result is well-formed.** -/
theorem yields_numeral (n : Option Number) : Yields (Tree.All p q) (numeral n) :=
  yields_of_write fun _ ht => .atom (hp _ (Atom.wellFormed_bare (Number.isBareWord_write ht)))

theorem yields_comparison (builtin : Builtin) (accept : Ordering → Bool) (args : List Value) :
    Yields (Tree.All p q) (comparison builtin accept args) := by
  unfold comparison
  split
  · exact .error _
  · exact .andThen fun ns => .ok (.atom (hp _ (Atom.wellFormed_ofBool _)))

end Arithmetic

namespace Structure

variable {v w : Value} {vs : List Value}

theorem yields_expectList (builtin : Builtin) (h : Tree.All p q v) :
    Yields (fun items => ∀ t ∈ items, Tree.All p q t) (expectList builtin v) := by
  cases h with
  | list hitems => exact .ok hitems
  | _ => exact .error _

theorem yields_expectMap (builtin : Builtin) (h : Tree.All p q v) :
    Yields (fun es => ∀ e ∈ es, Tree.All p q e.1 ∧ Tree.All p q e.2) (expectMap builtin v) := by
  cases h with
  | map hk hv hkeys hvalues =>
    exact .ok (List.forall_mem_cons.2 ⟨⟨hk, hv⟩, fun e he => ⟨hkeys e he, hvalues e he⟩⟩)
  | _ => exact .error _

theorem yields_first (h : Tree.All p q v) : Yields (Tree.All p q) (first v) := by
  refine (yields_expectList .first h).bind fun items hitems => .ok ?_
  cases items with
  | nil => exact .nil
  | cons t items => exact hitems t List.mem_cons_self

theorem yields_tail (h : Tree.All p q v) : Yields (Tree.All p q) (tail v) := by
  refine (yields_expectList .tail h).bind fun items hitems => .ok (.list fun t ht => ?_)
  exact hitems t (List.mem_of_mem_tail ht)

theorem yields_cons (h : Tree.All p q v) (h' : Tree.All p q w) :
    Yields (Tree.All p q) (cons v w) :=
  (yields_expectList .cons h').bind fun _ hitems =>
    .ok (.list (List.forall_mem_cons.2 ⟨h, hitems⟩))

include hp in
theorem yields_count (v : Value) : Yields (Tree.All p q) (count v) := by
  cases v with
  | leaf f => exact .error _
  | _ => exact Arithmetic.yields_numeral hp _

/-- What is found among entries is a part of them. -/
theorem all_getD_entry {key default : Value} {es : List (Value × Value)}
    (hes : ∀ e ∈ es, Tree.All p q e.1 ∧ Tree.All p q e.2) (hd : Tree.All p q default) :
    Tree.All p q ((Value.entry? key es).getD default) := by
  cases hfound : Value.entry? key es with
  | none => exact hd
  | some v =>
    obtain ⟨e, he, rfl⟩ := Option.map_eq_some_iff.1 hfound
    exact (hes e (List.mem_of_find?_eq_some he)).2

theorem yields_get (h : ∀ v ∈ vs, Tree.All p q v) : Yields (Tree.All p q) (get vs) := by
  match vs with
  | [] => exact .error _
  | [_] => exact .error _
  | [m, key] =>
    exact (yields_expectMap .get (h m (by simp))).bind fun es hes =>
      .ok (all_getD_entry hes .nil)
  | [m, key, default] =>
    exact (yields_expectMap .get (h m (by simp))).bind fun es hes =>
      .ok (all_getD_entry hes (h default (by simp)))
  | _ :: _ :: _ :: _ :: _ => exact .error _

theorem yields_keys (h : Tree.All p q v) : Yields (Tree.All p q) (keys v) :=
  (yields_expectMap .keys h).bind fun _ hes =>
    .ok (.list (List.forall_mem_map.2 fun e he => (hes e he).1))

theorem yields_values (h : Tree.All p q v) : Yields (Tree.All p q) (values v) :=
  (yields_expectMap .values h).bind fun _ hes =>
    .ok (.list (List.forall_mem_map.2 fun e he => (hes e he).2))

include hp in
theorem yields_concat (vs : List Value) : Yields (Tree.All p q) (concat vs) :=
  .andThen fun _ => .ok (.atom (hp _ (Atom.wellFormed_quoted _)))

include hp in
theorem yields_toText (v : Value) : Yields (Tree.All p q) (toText v) := by
  cases v with
  | leaf f => exact .error _
  | _ => exact .andThen fun t => .ok (.atom (hp _ (Atom.wellFormed_quoted t)))

end Structure

include hp in
/-- **What is read is well-formed.** -/
theorem Source.yields_read (source : Source) (limit : Except SettingError Int) :
    Yields (fun d => Tree.All p q (Tree.ofDatum d)) (source.read limit).1 := by
  intro d hd
  cases limit with
  | error e => cases hd
  | ok n =>
    cases hparsed : (source.parse n).result with
    | error e => simp [Source.read, hparsed] at hd
    | ok d' =>
      obtain rfl : d' = d := by simpa [Source.read, hparsed] using hd
      have hwf : Tree.All Atom.WellFormed q (Tree.ofDatum d') :=
        Tree.all_ofDatum.2 (Source.wellFormed_of_parse (q := fun _ => True) hparsed)
      exact hwf.mono hp fun _ hf => hf

end Builtins

end MiniLisp
