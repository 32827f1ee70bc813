import MiniLisp.Value

/-!
# What scopes hold

A scope holds the values that its frames bind, also those that cannot be seen because a frame in
front of theirs binds the same name. `Environment.All P env` says that all of them have the property
`P`: then so does whatever is looked up, and a new frame of such values keeps it. `Value.induct` is
induction on a value that goes through the scopes of its closures.
-/

namespace MiniLisp

/-! ## Frames -/

namespace Assoc

variable {κ β : Type} [DecidableEq κ] {P : β → Prop}

theorem forall_put {key : κ} {value : β} {bs : Assoc κ β} (hvalue : P value)
    (hbs : ∀ b ∈ bs, P b.2) : ∀ b ∈ put key value bs, P b.2 := by
  induction bs with
  | nil => simpa [put] using hvalue
  | cons b bs ih =>
    obtain ⟨hb, hrest⟩ := List.forall_mem_cons.1 hbs
    rw [put]
    split
    · exact List.forall_mem_cons.2 ⟨hvalue, hrest⟩
    · exact List.forall_mem_cons.2 ⟨hb, ih hrest⟩

theorem forall_ofList {bs : List (κ × β)} (h : ∀ b ∈ bs, P b.2) : ∀ b ∈ ofList bs, P b.2 := by
  suffices hfold : ∀ frame : Assoc κ β, (∀ b ∈ frame, P b.2) →
      ∀ b ∈ bs.foldl (fun frame b => put b.1 b.2 frame) frame, P b.2 from hfold [] (by simp)
  induction bs with
  | nil => exact fun frame hframe => hframe
  | cons b bs ih =>
    intro frame hframe
    obtain ⟨hb, hrest⟩ := List.forall_mem_cons.1 h
    exact ih hrest _ (forall_put hb hframe)

theorem forall_get? {key : κ} {bs : Assoc κ β} (h : ∀ b ∈ bs, P b.2) {value : β}
    (hvalue : get? key bs = some value) : P value := by
  obtain ⟨b, hb, rfl⟩ := Option.map_eq_some_iff.1 hvalue
  exact h b (List.mem_of_find?_eq_some hb)

end Assoc

/-! ## Environments -/

namespace Environment

variable {β : Type}

theorem lookup?_single (frame : Bindings β) (name : Text) :
    (Environment.mk frame []).lookup? name = Assoc.get? name frame := by
  simp only [lookup?, find?, findFrom]
  cases h : Assoc.get? name frame with
  | none => rfl
  | some v => exact h

theorem lookup?_cons (frame next : Bindings β) (outer : List (Bindings β)) (name : Text) :
    (Environment.mk frame (next :: outer)).lookup? name =
      (Assoc.get? name frame).or ((Environment.mk next outer).lookup? name) := by
  simp only [lookup?, find?, findFrom]
  cases h : Assoc.get? name frame with
  | none => rfl
  | some v => exact h

/-- Every binding has a value with the property, also those that cannot be seen. -/
def All (P : β → Prop) (env : Environment β) : Prop :=
  ∀ frame ∈ env.frame :: env.outer, ∀ b ∈ frame, P b.2

namespace All

variable {P Q : β → Prop} {env : Environment β} {bs : List (Text × β)}

theorem root (h : ∀ b ∈ bs, P b.2) : All P (Environment.root bs) :=
  List.forall_mem_singleton.2 (Assoc.forall_ofList h)

theorem extend (henv : All P env) (h : ∀ b ∈ bs, P b.2) : All P (env.extend bs) :=
  List.forall_mem_cons.2 ⟨Assoc.forall_ofList h, henv⟩

theorem mono (h : All P env) (hPQ : ∀ v, P v → Q v) : All Q env :=
  fun frame hframe b hb => hPQ b.2 (h frame hframe b hb)

/-- What is looked up is one of the values that the environment holds. -/
theorem lookup (henv : All P env) {name : Text} {v : β} (h : env.lookup? name = some v) : P v := by
  obtain ⟨frame, outer⟩ := env
  induction outer generalizing frame with
  | nil =>
    rw [lookup?_single] at h
    exact Assoc.forall_get? (henv frame List.mem_cons_self) h
  | cons next outer ih =>
    rw [lookup?_cons, Option.or_eq_some_iff] at h
    obtain ⟨hframe, houter⟩ := List.forall_mem_cons.1 henv
    rcases h with h | ⟨-, h⟩
    · exact Assoc.forall_get? hframe h
    · exact ih next houter h

end All

end Environment

/-! ## Values -/

/-- Induction on a value: besides the parts of lists and maps, the body of a closure and everything
that its scope holds have the property. -/
@[elab_as_elim]
theorem Value.induct {P : Value → Prop} (atom : ∀ a, P (.atom a))
    (list : ∀ ts, (∀ t ∈ ts, P t) → P (.list ts))
    (map : ∀ k v rest, P k → P v → (∀ e ∈ rest, P e.1 ∧ P e.2) → P (.map k v rest))
    (builtin : ∀ copy op, P (.leaf (.builtin copy op)))
    (closure : ∀ serial params body scope, P body → Environment.All P scope →
      P (.leaf (.closure serial params body scope))) (v : Value) : P v :=
  @Callable.rec_1 (fun f => P (.leaf f)) P (Environment.All P) (fun ts => ∀ t ∈ ts, P t)
    (fun es => ∀ e ∈ es, P e.1 ∧ P e.2) (fun frame => ∀ b ∈ frame, P b.2)
    (fun frames => ∀ frame ∈ frames, ∀ b ∈ frame, P b.2) (fun e => P e.1 ∧ P e.2)
    (fun b => P b.2)
    builtin closure atom list (fun k v rest hk hv hrest => map k v rest hk hv hrest)
    (fun _ hf => hf) (fun _ _ hframe houter => List.forall_mem_cons.2 ⟨hframe, houter⟩)
    (by simp) (fun _ _ ht hts => List.forall_mem_cons.2 ⟨ht, hts⟩)
    (by simp) (fun _ _ he hes => List.forall_mem_cons.2 ⟨he, hes⟩)
    (by simp) (fun _ _ hb hbs => List.forall_mem_cons.2 ⟨hb, hbs⟩)
    (by simp) (fun _ _ hframe hframes => List.forall_mem_cons.2 ⟨hframe, hframes⟩)
    (fun _ _ hk hv => ⟨hk, hv⟩) (fun _ _ hv => hv) v

end MiniLisp
