import MiniLisp.Proofs.Evaluation.Progress

/-!
# What cannot be written

A tree is written from its parts, and a function has none that could be written. On a function by
itself `to-text` reports a misuse and `print` shows its label, but neither of them looks further
inside, so that **functions inside a list or a map are met only in writing** (`Value.inner`).

* `Tree.toDatum_failsBy`: a tree is a datum unless there are leaves in it, and then the first one
  in the order of writing is at fault.
* `Builtin.call_unwritable_iff`: of all calls of builtins, exactly those of `to-text` and `print`
  with functions inside their arguments fail in writing, by the first of these functions.
-/

namespace MiniLisp

/-- The result is the error at the head of the faults, and a success if there are none. -/
def FailsBy {ε α : Type} (x : Except ε α) (faults : List ε) : Prop :=
  ∀ e, x = .error e ↔ faults.head? = some e

namespace FailsBy

variable {ε ε' α β : Type} {x : Except ε α} {faults faults' : List ε}

theorem ok (a : α) : FailsBy (.ok a : Except ε α) [] := by simp [FailsBy]

theorem error (e : ε) : FailsBy (.error e : Except ε α) [e] := by simp [FailsBy]

theorem head?_eq {e : ε} (h : FailsBy (.error e : Except ε α) faults) : faults.head? = some e :=
  (h e).1 rfl

theorem eq_nil {a : α} (h : FailsBy (.ok a : Except ε α) faults) : faults = [] := by
  cases faults with
  | nil => rfl
  | cons e es => exact nomatch (h e).2 rfl

theorem bind {f : α → Except ε β} (hx : FailsBy x faults) (hf : ∀ a, FailsBy (f a) faults') :
    FailsBy (x >>= f) (faults ++ faults') := by
  cases x with
  | error e =>
    intro e'
    simp [Bind.bind, Except.bind, hx.head?_eq]
  | ok a =>
    -- what the first step gives does not matter: the faults of the second are always the same
    rw [hx.eq_nil]
    exact hf a

theorem mapError (hx : FailsBy x faults) (f : ε → ε') :
    FailsBy (x.mapError f) (faults.map f) := by
  cases x with
  | error e =>
    intro e'
    simp [Except.mapError, hx.head?_eq]
  | ok a =>
    rw [hx.eq_nil]
    exact ok a

/-- A step that cannot fail may follow. -/
theorem map (hx : FailsBy x faults) (f : α → β) : FailsBy (do return f (← x)) faults := by
  have hbind := hx.bind fun a => ok (ε := ε) (f a)
  rwa [List.append_nil] at hbind

theorem mapM {f : α → Except ε β} {g : α → List ε} {xs : List α}
    (h : ∀ a ∈ xs, FailsBy (f a) (g a)) : FailsBy (xs.mapM f) (xs.flatMap g) := by
  induction xs with
  | nil => exact ok []
  | cons a xs ih =>
    rw [List.mapM_cons, List.flatMap_cons]
    have htail := ih fun b hb => h b (List.mem_cons_of_mem a hb)
    exact (h a List.mem_cons_self).bind fun b => htail.map (b :: ·)

end FailsBy

namespace Tree

variable {α : Type}

/-- The leaves of a tree, in the order of writing. -/
def leaves : Tree α → List α :=
  fold {
    atom := fun _ => []
    list := List.flatten
    map := fun key value rest => key ++ (value ++ rest.flatMap fun e => e.1 ++ e.2)
    leaf := fun a => [a] }

@[simp] theorem leaves_list (ts : List (Tree α)) : (list ts).leaves = ts.flatMap leaves := by
  rw [leaves, fold_list]
  rfl

@[simp] theorem leaves_map (k v : Tree α) (rest : List (Tree α × Tree α)) :
    (map k v rest).leaves =
      k.leaves ++ (v.leaves ++ rest.flatMap fun e => e.1.leaves ++ e.2.leaves) := by
  rw [leaves, fold_map]
  dsimp only
  rw [List.flatMap_map]

theorem toDatum_list (ts : List (Tree α)) :
    (list ts).toDatum = do return .list (← ts.mapM toDatum) := by
  rw [toDatum, fold_list]
  dsimp only
  rw [List.mapM_map]
  rfl

theorem toDatum_map (k v : Tree α) (rest : List (Tree α × Tree α)) :
    (map k v rest).toDatum = do
      let key ← k.toDatum
      let value ← v.toDatum
      let rest ← rest.mapM fun e => do return (← e.1.toDatum, ← e.2.toDatum)
      return .map key value rest := by
  rw [toDatum, fold_map]
  dsimp only
  rw [List.mapM_map]
  rfl

/-- **A tree is a datum unless there are leaves in it**, of which the first is at fault. -/
theorem toDatum_failsBy (t : Tree α) : FailsBy t.toDatum t.leaves := by
  induction t using Tree.induct with
  | atom a => exact .ok _
  | leaf a => exact .error a
  | list ts ih =>
    rw [toDatum_list, leaves_list]
    exact (FailsBy.mapM ih).map Tree.list
  | map k v rest hk hv ih =>
    rw [toDatum_map, leaves_map]
    refine hk.bind fun key => hv.bind fun value => ?_
    refine (FailsBy.mapM fun e he => ?_).map (Tree.map key value)
    exact (ih e he).1.bind fun key => (ih e he).2.map (key, ·)

end Tree

/-- The functions inside a list or a map, in the order of writing. A function by itself is inside
nothing. -/
def Value.inner : Value → List Callable
  | .leaf _ => []
  | v => v.leaves

/-- The error of a function that was to be written. -/
def Callable.unwritable (f : Callable) : Error := .unwritable f.label

theorem Value.serialize_failsBy (v : Value) :
    FailsBy v.serialize (v.leaves.map Callable.unwritable) := by
  have hserialize : v.serialize =
      do return Datum.serialize (← v.toDatum.mapError Callable.unwritable) := by
    unfold serialize datum
    cases v.toDatum <;> rfl
  rw [hserialize]
  exact (v.toDatum_failsBy.mapError _).map _

namespace Structure

/-- To show a value is to write the functions inside it. -/
theorem shown_failsBy (v : Value) : FailsBy (shown v) (v.inner.map Callable.unwritable) := by
  cases v with
  | atom a => exact .ok _
  | leaf f => exact .ok _
  | list items => exact Value.serialize_failsBy _
  | map key value rest => exact Value.serialize_failsBy _

theorem toText_unwritable_iff (v : Value) (shown : Text) :
    toText v = .error (.unwritable shown) ↔
      (v.inner.map Callable.unwritable).head? = some (.unwritable shown) := by
  cases v with
  | leaf f => simp [toText, Value.inner]
  | atom a => exact (Value.serialize_failsBy _).map _ _
  | list items => exact (Value.serialize_failsBy _).map _ _
  | map key value rest => exact (Value.serialize_failsBy _).map _ _

end Structure

/-- What a call of a builtin has to write. -/
def Builtin.written : Builtin → List Value → List Value
  | .toText, [arg] => [arg]
  | .print, args => args
  | _, _ => []

/-- The run does not fail in writing. -/
def Run.Writes {α : Type} (x : Run α) : Prop :=
  ∀ l p shown, (x l p).1 ≠ .error (.unwritable shown)

namespace Run.Writes

variable {α β : Type}

theorem pure (a : α) : Writes (Pure.pure a : Run α) := fun _ _ _ h => nomatch h

/-- A misuse is no failure in writing. -/
theorem ofMisuse {r : α → β → Prop} {x : Except Error α} {y : Except Error β}
    (h : AgreeOnMisuse r x y) : Writes (Run.ofExcept x) := by
  intro l p shown
  cases h with
  | ok _ => exact fun h => nomatch h
  | error h =>
    rintro ⟨⟩
    exact nomatch h.2

theorem misuse {e : Error} (h : e.IsMisuse) : Writes (Run.fail e : Run α) := by
  rintro l p shown ⟨⟩
  cases h

theorem plain {x : Run α} (h : Plain x) : Writes x := by
  intro l p shown he
  rcases h.error l p _ he with ⟨_, hread⟩ | ⟨_, hsetting, -⟩
  · cases hread
  · cases hsetting

theorem bind {x : Run α} {f : α → Run β} (hx : Writes x) (hf : ∀ a, Writes (f a)) :
    Writes (x >>= f) := by
  intro l p shown
  rw [bind_apply]
  rcases hxp : x l p with ⟨e | a, q⟩
  · rintro ⟨⟩
    exact hx l p shown (by rw [hxp])
  · exact hf a l q shown

end Run.Writes

namespace Operation

/-- The operation never fails in writing. -/
def Writes : Operation → Prop
  | .unary f => ∀ a, (f a).Writes
  | .binary f => ∀ a b, (f a b).Writes
  | .variadic f => ∀ args, (f args).Writes

theorem Writes.call {op : Operation} (h : op.Writes) (name : Text) (args : List Value) :
    (op.call name args).Writes := by
  cases op with
  | unary f =>
    match args with
    | [] => exact .misuse (.arity _ _ _)
    | [a] => exact h a
    | _ :: _ :: _ => exact .misuse (.arity _ _ _)
  | binary f =>
    match args with
    | [] => exact .misuse (.arity _ _ _)
    | [_] => exact .misuse (.arity _ _ _)
    | [a, b] => exact h a b
    | _ :: _ :: _ :: _ => exact .misuse (.arity _ _ _)
  | variadic f => exact h args

end Operation

namespace Builtin

/-- Apart from `to-text` and `print`, no builtin writes anything. -/
theorem operation_writes (b : Builtin) (htext : b ≠ .toText) (hprint : b ≠ .print) :
    b.operation.Writes := by
  have hsame := Correspondence.equality_refl
  have hall (vs : List Value) : List.Forall₂ Correspondence.equality.value vs vs :=
    List.forall₂_same.2 fun v _ => hsame v
  cases b with
  | toText => exact absurd rfl htext
  | print => exact absurd rfl hprint
  | add => exact fun vs => .ofMisuse (Arithmetic.sum_agrees (hall vs))
  | sub => exact fun vs => .ofMisuse (Arithmetic.difference_agrees (hall vs))
  | mul => exact fun vs => .ofMisuse (Arithmetic.product_agrees (hall vs))
  | div => exact fun vs => .ofMisuse (Arithmetic.quotient_agrees (hall vs))
  | mod => exact fun v w => .ofMisuse (Arithmetic.modulo_agrees (hsame v) (hsame w))
  | less => exact fun vs => .ofMisuse (Arithmetic.comparison_agrees _ _ (hall vs))
  | lessEqual => exact fun vs => .ofMisuse (Arithmetic.comparison_agrees _ _ (hall vs))
  | greater => exact fun vs => .ofMisuse (Arithmetic.comparison_agrees _ _ (hall vs))
  | greaterEqual => exact fun vs => .ofMisuse (Arithmetic.comparison_agrees _ _ (hall vs))
  | first => exact fun v => .ofMisuse (Structure.first_agrees (hsame v))
  | tail => exact fun v => .ofMisuse (Structure.tail_agrees (hsame v))
  | cons => exact fun v w => .ofMisuse (Structure.cons_agrees (hsame v) (hsame w))
  | count => exact fun v => .ofMisuse (Structure.count_agrees (hsame v))
  | get => exact fun vs => .ofMisuse (Structure.get_agrees (hall vs))
  | keys => exact fun v => .ofMisuse (Structure.keys_agrees (hsame v))
  | values => exact fun v => .ofMisuse (Structure.values_agrees (hsame v))
  | concat => exact fun vs => .ofMisuse (Structure.concat_agrees (hall vs))
  | read =>
    intro v
    refine .bind (.ofMisuse (Structure.expectAtom_agrees .read (hsame v))) fun t => ?_
    exact .plain (Run.plain_read t)
  -- the rest are tests, and `list`, which cannot fail
  | _ => exact fun _ => .pure _

theorem written_eq_nil (b : Builtin) (args : List Value) (htext : b ≠ .toText)
    (hprint : b ≠ .print) : b.written args = [] := by
  cases b <;> first | rfl | contradiction

theorem print_failsBy (args : List Value) (l : Limits) (p : Progress) :
    FailsBy (Run.print args l p).1 ((args.flatMap Value.inner).map Callable.unwritable) := by
  have hprint : (Run.print args l p).1 =
      do return (fun _ => Tree.nil) (← args.mapM Structure.shown) := by
    unfold Run.print
    cases args.mapM Structure.shown <;> rfl
  rw [hprint, List.map_flatMap]
  exact (FailsBy.mapM fun v _ => Structure.shown_failsBy v).map _

theorem head?_unwritable_iff (fs : List Callable) (shown : Text) :
    (fs.map Callable.unwritable).head? = some (.unwritable shown) ↔
      ∃ f, fs.head? = some f ∧ f.label = shown := by
  rw [List.head?_map, Option.map_eq_some_iff]
  simp only [Callable.unwritable, Error.unwritable.injEq]

/-- A call that writes nothing does not fail in writing. -/
theorem unwritable_iff_of_writes {x : Run Value} (hx : x.Writes) (l : Limits) (p : Progress)
    (shown : Text) :
    (x l p).1 = .error (.unwritable shown) ↔
      ∃ f, (([] : List Value).flatMap Value.inner).head? = some f ∧ f.label = shown := by
  simpa using hx l p shown

/-- **A call fails in writing if and only if there are functions inside what it writes**, and then
by the first of them. -/
theorem call_unwritable_iff (b : Builtin) (args : List Value) (l : Limits) (p : Progress)
    (shown : Text) :
    (b.operation.call b.name args l p).1 = .error (.unwritable shown) ↔
      ∃ f, ((b.written args).flatMap Value.inner).head? = some f ∧ f.label = shown := by
  by_cases htext : b = .toText
  · subst htext
    match args with
    | [] => exact unwritable_iff_of_writes (.misuse (.arity _ _ _)) l p shown
    | _ :: _ :: _ => exact unwritable_iff_of_writes (.misuse (.arity _ _ _)) l p shown
    | [v] =>
      rw [written, List.flatMap_singleton, ← head?_unwritable_iff,
        ← Structure.toText_unwritable_iff]
      change (Run.ofExcept (Structure.toText v) l p).1 = _ ↔ _
      cases Structure.toText v <;> rfl
  by_cases hprint : b = .print
  · subst hprint
    rw [← head?_unwritable_iff]
    exact print_failsBy args l p (.unwritable shown)
  · rw [written_eq_nil b args htext hprint]
    exact unwritable_iff_of_writes ((b.operation_writes htext hprint).call b.name args) l p shown

end Builtin

end MiniLisp
