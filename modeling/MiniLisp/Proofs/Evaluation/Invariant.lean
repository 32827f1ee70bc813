import MiniLisp.Proofs.Builtin.WellFormed
import MiniLisp.Proofs.Evaluation.Scope

/-!
# What evaluation keeps

An `Invariant` is a property of values that holds of the atoms and functions they consist of. What
it asks of a function may depend on how many closures have been made, as long as closures that are
made later do no harm to it. The elementary steps have to respect it: builtins and well-formed atoms
have it, a closure passes it on to its body and to all that its scope holds, and a new closure has it
if its parts do. Then **evaluation keeps it** (`Invariant.evaluate`): in a scope that has it, an
expression that has it evaluates to a value that has it.

`Run.Keeps P k x` says so of a run: if `k` closures or more have been made before it, none of them is
taken back, and its result has the property `P` for the closures that have been made after it.
-/

namespace MiniLisp

/-! ## Runs -/

/-- Started after at least `k` closures, the run takes none of them back, and the result has the
property `P` for those that have been made by then. -/
def Run.Keeps {α : Type} (P : Nat → α → Prop) (k : Nat) (x : Run α) : Prop :=
  ∀ (l : Limits) (p : Progress), k ≤ p.closures →
    p.closures ≤ (x l p).2.closures ∧ MiniLisp.Yields (P (x l p).2.closures) (x l p).1

namespace Run.Keeps

variable {α β : Type} {P : Nat → α → Prop} {Q : Nat → β → Prop} {k k' : Nat}

theorem of_le {x : Run α} (h : Keeps P k x) (hle : k ≤ k') : Keeps P k' x :=
  fun l p hp => h l p (Nat.le_trans hle hp)

theorem pure {a : α} (h : ∀ k', k ≤ k' → P k' a) : Keeps P k (Pure.pure a : Run α) :=
  fun _ p hp => ⟨Nat.le_refl _, .ok (h p.closures hp)⟩

theorem fail (e : Error) : Keeps P k (Run.fail e : Run α) :=
  fun _ _ _ => ⟨Nat.le_refl _, .error e⟩

theorem bind {x : Run α} {f : α → Run β} (hx : Keeps P k x)
    (hf : ∀ k' a, k ≤ k' → P k' a → Keeps Q k' (f a)) : Keeps Q k (x >>= f) := by
  intro l p hp
  obtain ⟨hle, hresult⟩ := hx l p hp
  rw [bind_apply]
  rcases hxp : x l p with ⟨e | a, p'⟩
  · rw [hxp] at hle
    exact ⟨hle, .error e⟩
  · rw [hxp] at hle hresult
    obtain ⟨hle', hresult'⟩ := hf p'.closures a (Nat.le_trans hp hle) (hresult a rfl) l p' le_rfl
    exact ⟨Nat.le_trans hle hle', hresult'⟩

/-- A result that needs neither limits nor progress. -/
theorem ofExcept {x : Except Error α} (h : ∀ k', k ≤ k' → MiniLisp.Yields (P k') x) :
    Keeps P k (Run.ofExcept x) := by
  cases x with
  | ok a => exact pure fun k' hk => h k' hk a rfl
  | error e => exact fail e

/-- An action whose result is of no matter, and which leaves the closures as they are. -/
theorem of_closures_eq {x : Run α} (h : ∀ l p, (x l p).2.closures = p.closures) :
    Keeps (fun _ _ => True) k x :=
  fun l p _ => ⟨Nat.le_of_eq (h l p).symm, fun _ _ => trivial⟩

theorem mapM {f : α → Run β} {xs : List α} (hQ : ∀ {k k' b}, k ≤ k' → Q k b → Q k' b)
    (h : ∀ a ∈ xs, Keeps Q k (f a)) :
    Keeps (fun k bs => ∀ b ∈ bs, Q k b) k (xs.mapM f) := by
  induction xs with
  | nil => exact pure (by simp)
  | cons a xs ih =>
    obtain ⟨ha, hxs⟩ := List.forall_mem_cons.1 h
    rw [List.mapM_cons]
    refine ha.bind fun k₁ b hk₁ hb => ((ih hxs).of_le hk₁).bind fun k₂ bs hk₂ hbs => ?_
    refine pure fun k₃ hk₃ => List.forall_mem_cons.2 ⟨hQ (Nat.le_trans hk₂ hk₃) hb, ?_⟩
    exact fun b hb => hQ hk₃ (hbs b hb)

end Run.Keeps

namespace Run

variable {k : Nat}

theorem keeps_step : Keeps (fun _ _ => True) k step := by
  refine .of_closures_eq fun l p => ?_
  rcases step_cases l p with ⟨b, -, -, hstep⟩ | ⟨-, hstep⟩ <;> rw [hstep] <;> rfl

theorem keeps_note (e : Event) : Keeps (fun _ _ => True) k (note e) :=
  .of_closures_eq fun _ _ => rfl

theorem keeps_printLine (t : Text) : Keeps (fun _ _ => True) k (printLine t) :=
  .of_closures_eq fun _ _ => rfl

theorem keeps_limits : Keeps (fun _ _ => True) k limits := .of_closures_eq fun _ _ => rfl

/-- The serial number of a new closure is that of the closures made before it. -/
theorem keeps_newClosure : Keeps (fun k' serial => k ≤ serial ∧ k' = serial + 1) k newClosure :=
  fun _ p hp => ⟨Nat.le_succ p.closures, .ok ⟨hp, rfl⟩⟩

theorem keeps_tooDeep {α : Type} {P : Nat → α → Prop} : Keeps P k tooDeep :=
  keeps_limits.bind fun _ _ _ _ => (keeps_note _).bind fun _ _ _ _ => .fail _

end Run

/-! ## Invariants -/

/-- A property of the atoms and functions of values that the elementary steps respect. -/
structure Invariant where
  atom : Atom → Prop
  /-- The property of a function once so many closures have been made. -/
  callable : Nat → Callable → Prop
  wellFormed : ∀ {a}, a.WellFormed → atom a
  mono : ∀ {k k' f}, k ≤ k' → callable k f → callable k' f
  builtin : ∀ {k} copy op, callable k (.builtin copy op)
  closure : ∀ {k serial params body σ}, callable k (.closure serial params body σ) →
    Tree.All atom (callable k) body ∧ Environment.All (Tree.All atom (callable k)) σ
  newClosure : ∀ {k v params body σ}, Tree.All atom (callable k) v →
    SpecialForm.parameterNames v = .ok params → Tree.All atom (callable k) body →
    Environment.All (Tree.All atom (callable k)) σ →
    callable (k + 1) (.closure k params body σ)

namespace Invariant

variable (I : Invariant) {k k' : Nat}

/-- All atoms and functions of the value have the property. -/
abbrev value (k : Nat) : Value → Prop := Tree.All I.atom (I.callable k)

/-- So have all values that the scope holds. -/
abbrev scope (k : Nat) : Scope → Prop := Environment.All (I.value k)

/-- Both sides of an entry have the property. -/
abbrev entry (k : Nat) (e : Value × Value) : Prop := I.value k e.1 ∧ I.value k e.2

variable {I}

theorem value_mono {v : Value} (hle : k ≤ k') (h : I.value k v) : I.value k' v :=
  h.mono (fun _ ha => ha) fun _ hf => I.mono hle hf

theorem scope_mono {σ : Scope} (hle : k ≤ k') (h : I.scope k σ) : I.scope k' σ :=
  Environment.All.mono h fun _ hv => value_mono hle hv

theorem items_mono {vs : List Value} (hle : k ≤ k') (h : ∀ v ∈ vs, I.value k v) :
    ∀ v ∈ vs, I.value k' v :=
  fun v hv => value_mono hle (h v hv)

theorem value_ofBool (b : Bool) : I.value k (Value.ofBool b) :=
  .atom (I.wellFormed (Atom.wellFormed_ofBool b))

/-- The standard scope binds builtins, two words and the empty list. -/
theorem scope_standard (I : Invariant) (k copy : Nat) : I.scope k (Scope.standard copy) := by
  refine Environment.All.root (List.forall_mem_append.2 ⟨?_, ?_⟩)
  · exact List.forall_mem_map.2 fun op _ => .leaf (I.builtin copy op)
  · intro b hb
    simp only [List.mem_cons, List.not_mem_nil, or_false] at hb
    rcases hb with rfl | rfl | rfl
    · exact value_ofBool true
    · exact value_ofBool false
    · exact .nil

/-! ## Builtins -/

section Builtins

variable {vs : List Value}

theorem keeps_ofBool (b : Bool) : Run.Keeps I.value k (Pure.pure (Value.ofBool b)) :=
  .pure fun _ _ => value_ofBool b

theorem keeps_read (t : Text) : Run.Keeps I.value k (Run.read t) := by
  intro l p hp
  rw [Run.read_apply]
  refine ⟨Nat.le_refl _, ?_⟩
  have hread := Source.yields_read (q := I.callable p.closures) (fun _ => I.wellFormed) (.text t)
    l.nesting
  cases hd : ((Source.text t).read l.nesting).1 with
  | error e => exact .error e
  | ok d => exact .ok (hread d hd)

theorem keeps_print (vs : List Value) : Run.Keeps I.value k (Run.print vs) := by
  refine .bind (.ofExcept fun _ _ _ _ => trivial) fun _ ts _ (_ : True) => ?_
  exact (Run.keeps_printLine _).bind fun _ _ _ _ => .pure fun _ _ => .nil

/-- The operation makes values with the property from arguments with the property. -/
def KeptBy (I : Invariant) (k : Nat) : Operation → Prop
  | .unary f => ∀ a, I.value k a → Run.Keeps I.value k (f a)
  | .binary f => ∀ a b, I.value k a → I.value k b → Run.Keeps I.value k (f a b)
  | .variadic f => ∀ args, (∀ v ∈ args, I.value k v) → Run.Keeps I.value k (f args)

theorem keptBy_operation (b : Builtin) : I.KeptBy k b.operation := by
  have hwf : ∀ a : Atom, a.WellFormed → I.atom a := fun _ => I.wellFormed
  have hnumeral (j : Nat) (n : Option Number) : Yields (I.value j) (Arithmetic.numeral n) :=
    Arithmetic.yields_numeral hwf n
  cases b with
  | add => exact fun vs _ => .ofExcept fun _ _ => Arithmetic.yields_sum (hnumeral _) vs
  | sub => exact fun vs _ => .ofExcept fun _ _ => Arithmetic.yields_difference (hnumeral _) vs
  | mul => exact fun vs _ => .ofExcept fun _ _ => Arithmetic.yields_product (hnumeral _) vs
  | div => exact fun vs _ => .ofExcept fun _ _ => Arithmetic.yields_quotient (hnumeral _) vs
  | mod => exact fun v w _ _ => .ofExcept fun _ _ => Arithmetic.yields_modulo (hnumeral _) v w
  | equal => exact fun _ _ => keeps_ofBool _
  | unequal => exact fun _ _ => keeps_ofBool _
  | less => exact fun vs _ => .ofExcept fun _ _ => Arithmetic.yields_comparison hwf _ _ vs
  | lessEqual => exact fun vs _ => .ofExcept fun _ _ => Arithmetic.yields_comparison hwf _ _ vs
  | greater => exact fun vs _ => .ofExcept fun _ _ => Arithmetic.yields_comparison hwf _ _ vs
  | greaterEqual => exact fun vs _ => .ofExcept fun _ _ => Arithmetic.yields_comparison hwf _ _ vs
  | not => exact fun _ _ => keeps_ofBool _
  | list => exact fun _ h => .pure fun _ hk => .list (items_mono hk h)
  | first => exact fun _ h => .ofExcept fun _ hk => Structure.yields_first (value_mono hk h)
  | tail => exact fun _ h => .ofExcept fun _ hk => Structure.yields_tail (value_mono hk h)
  | cons =>
    exact fun _ _ h h' => .ofExcept fun _ hk =>
      Structure.yields_cons (value_mono hk h) (value_mono hk h')
  | count => exact fun v _ => .ofExcept fun _ _ => Structure.yields_count hwf v
  | get => exact fun _ h => .ofExcept fun _ hk => Structure.yields_get (items_mono hk h)
  | keys => exact fun _ h => .ofExcept fun _ hk => Structure.yields_keys (value_mono hk h)
  | values => exact fun _ h => .ofExcept fun _ hk => Structure.yields_values (value_mono hk h)
  | isAtom => exact fun _ _ => keeps_ofBool _
  | isList => exact fun _ _ => keeps_ofBool _
  | isMap => exact fun _ _ => keeps_ofBool _
  | isFunction => exact fun _ _ => keeps_ofBool _
  | concat => exact fun vs _ => .ofExcept fun _ _ => Structure.yields_concat hwf vs
  | toText => exact fun v _ => .ofExcept fun _ _ => Structure.yields_toText hwf v
  | read =>
    exact fun _ _ => .bind (.ofExcept fun _ _ _ _ => trivial) fun _ t _ (_ : True) => keeps_read t
  | print => exact fun vs _ => keeps_print vs

/-- **A builtin makes a value with the property from arguments with the property.** -/
theorem call (b : Builtin) (h : ∀ v ∈ vs, I.value k v) :
    Run.Keeps I.value k (b.operation.call b.name vs) := by
  have hkept : I.KeptBy k b.operation := keptBy_operation b
  generalize b.operation = op at hkept
  cases op with
  | unary f =>
    match vs with
    | [] => exact .fail _
    | [a] => exact hkept a (h a (by simp))
    | _ :: _ :: _ => exact .fail _
  | binary f =>
    match vs with
    | [] => exact .fail _
    | [_] => exact .fail _
    | [a, b] => exact hkept a b (h a (by simp)) (h b (by simp))
    | _ :: _ :: _ :: _ => exact .fail _
  | variadic f => exact hkept vs h

end Builtins

/-! ## Special forms -/

section Parts

variable {v : Value} {es : List Value}

theorem yields_bindingEntries (h : I.value k v) :
    Yields (fun es => ∀ e ∈ es, I.entry k e) (SpecialForm.bindingEntries v) := by
  cases h with
  | @list ts _ =>
    cases ts with
    | nil => exact .ok (by simp)
    | cons t ts => exact .error _
  | map hk hv hkeys hvalues =>
    exact .ok (List.forall_mem_cons.2 ⟨⟨hk, hv⟩, fun e he => ⟨hkeys e he, hvalues e he⟩⟩)
  | _ => exact .error _

/-- The body of a function has the property, also where `quote` or `do` was put around its forms. -/
theorem functionBody (h : ∀ e ∈ es, I.value k e) : I.value k (SpecialForm.functionBody es) := by
  have hquote : I.atom (Atom.bare SpecialForm.quote.name) :=
    I.wellFormed (Atom.wellFormed_bare (by decide))
  have hdo : I.atom (Atom.bare SpecialForm.sequence.name) :=
    I.wellFormed (Atom.wellFormed_bare (by decide))
  match es with
  | [] => exact .list (List.forall_mem_cons.2 ⟨.atom hquote, List.forall_mem_singleton.2 .nil⟩)
  | [e] => exact h e List.mem_cons_self
  | e :: e' :: es => exact .list (List.forall_mem_cons.2 ⟨.atom hdo, h⟩)

end Parts

/-- Expressions with the property evaluate to such values in scopes with the property. -/
def Evaluator (I : Invariant) (ev : Evaluate) : Prop :=
  ∀ k e σ, I.value k e → I.scope k σ → Run.Keeps I.value k (ev e σ)

section Evaluation

variable {ev : Evaluate} (hev : I.Evaluator ev)
include hev

theorem apply {f : Callable} (hf : I.callable k f) {args : List Value}
    (hargs : ∀ v ∈ args, I.value k v) : Run.Keeps I.value k (f.apply ev args) := by
  cases f with
  | builtin copy op => exact call op hargs
  | closure serial params body σ =>
    obtain ⟨hbody, hσ⟩ := I.closure hf
    rw [Callable.apply]
    split
    · refine hev k body _ hbody (hσ.extend fun b hb => ?_)
      exact hargs b.2 (List.of_mem_zip hb).2
    · exact .fail _

variable {σ : Scope} (hσ : I.scope k σ) {es : List Value} (hes : ∀ e ∈ es, I.value k e)
include hσ hes

theorem evalSequence : Run.Keeps I.value k (SpecialForm.evalSequence ev σ es) := by
  induction es with
  | nil => exact .pure fun _ _ => .nil
  | cons e es ih =>
    obtain ⟨he, hrest⟩ := List.forall_mem_cons.1 hes
    cases es with
    | nil => exact hev k e σ he hσ
    | cons e' es => exact (hev k e σ he hσ).bind fun _ _ hk _ => (ih hrest).of_le hk

theorem evalConjunction : Run.Keeps I.value k (SpecialForm.evalConjunction ev σ es) := by
  induction es with
  | nil => exact keeps_ofBool true
  | cons e es ih =>
    obtain ⟨he, hrest⟩ := List.forall_mem_cons.1 hes
    cases es with
    | nil => exact hev k e σ he hσ
    | cons e' es =>
      refine (hev k e σ he hσ).bind fun k' v hk hv => ?_
      split
      · exact (ih hrest).of_le hk
      · exact .pure fun _ hk => value_mono hk hv

theorem evalDisjunction : Run.Keeps I.value k (SpecialForm.evalDisjunction ev σ es) := by
  induction es with
  | nil => exact keeps_ofBool false
  | cons e es ih =>
    obtain ⟨he, hrest⟩ := List.forall_mem_cons.1 hes
    refine (hev k e σ he hσ).bind fun k' v hk hv => ?_
    split
    · exact .pure fun _ hk => value_mono hk hv
    · exact (ih hrest).of_le hk

omit hes in
theorem evalBindings {entries : List (Value × Value)} (h : ∀ e ∈ entries, I.entry k e) :
    Run.Keeps (fun k bs => ∀ b ∈ bs, I.value k b.2) k
      (SpecialForm.evalBindings ev σ entries) := by
  induction entries with
  | nil => exact .pure (by simp)
  | cons e entries ih =>
    obtain ⟨he, hrest⟩ := List.forall_mem_cons.1 h
    rw [SpecialForm.evalBindings]
    split
    · exact .fail _
    · refine (hev k e.2 σ he.2 hσ).bind fun k₁ v hk₁ hv => ?_
      refine ((ih hrest).of_le hk₁).bind fun k₂ bs hk₂ hbs => ?_
      refine .pure fun k₃ hk₃ => List.forall_mem_cons.2 ⟨value_mono (Nat.le_trans hk₂ hk₃) hv, ?_⟩
      exact fun b hb => value_mono hk₃ (hbs b hb)

theorem evaluateAll :
    Run.Keeps (fun k vs => ∀ v ∈ vs, I.value k v) k (evaluateAll ev σ es) :=
  .mapM value_mono fun e he => hev k e σ (hes e he) hσ

omit hes in
theorem evaluateEntries {entries : List (Value × Value)} (h : ∀ e ∈ entries, I.entry k e) :
    Run.Keeps (fun k es => ∀ e ∈ es, I.entry k e) k (evaluateEntries ev σ entries) := by
  refine .mapM (fun hk he => ⟨value_mono hk he.1, value_mono hk he.2⟩) fun e he => ?_
  refine (hev k e.2 σ (h e he).2 hσ).bind fun k₁ v hk₁ hv => ?_
  exact .pure fun k₂ hk₂ => ⟨value_mono (Nat.le_trans hk₁ hk₂) (h e he).1, value_mono hk₂ hv⟩

/-- **A special form whose parts have the property has such a value.** -/
theorem specialForm (form : SpecialForm) : Run.Keeps I.value k (form.run ev σ es) := by
  cases form with
  | quote =>
    match es with
    | [] => exact .fail _
    | [e] => exact .pure fun _ hk => value_mono hk (hes e (by simp))
    | _ :: _ :: _ => exact .fail _
  | choose =>
    match es with
    | [] => exact .fail _
    | [_] => exact .fail _
    | [condition, yes] =>
      refine (hev k condition σ (hes condition (by simp)) hσ).bind fun k' v hk _ => ?_
      split
      · exact (hev k yes σ (hes yes (by simp)) hσ).of_le hk
      · exact .pure fun _ _ => .nil
    | [condition, yes, no] =>
      refine (hev k condition σ (hes condition (by simp)) hσ).bind fun k' v hk _ => ?_
      split
      · exact (hev k yes σ (hes yes (by simp)) hσ).of_le hk
      · exact (hev k no σ (hes no (by simp)) hσ).of_le hk
    | _ :: _ :: _ :: _ :: _ => exact .fail _
  | bind =>
    match es with
    | [] => exact .fail _
    | bindings :: body =>
      obtain ⟨hbindings, hbody⟩ := List.forall_mem_cons.1 hes
      refine .bind (.ofExcept fun k' hk => yields_bindingEntries (value_mono hk hbindings))
        fun k₁ entries hk₁ hentries => ?_
      refine (evalBindings hev (scope_mono hk₁ hσ) hentries).bind fun k₂ frame hk₂ hframe => ?_
      have hle := Nat.le_trans hk₁ hk₂
      exact evalSequence hev ((scope_mono hle hσ).extend hframe) (items_mono hle hbody)
  | lambda =>
    match es with
    | [] => exact .fail _
    | params :: body =>
      obtain ⟨hparams, hbody⟩ := List.forall_mem_cons.1 hes
      refine .bind (.ofExcept fun _ _ names hnames => hnames) fun k₁ names hk₁ hnames => ?_
      refine Run.keeps_newClosure.bind fun k₂ serial _ hserial => .pure fun k₃ hk₃ => .leaf ?_
      -- the parts had the property when the closure was made, and it is the next one
      obtain ⟨hle, rfl⟩ := hserial
      have hle := Nat.le_trans hk₁ hle
      exact I.mono hk₃ (I.newClosure (value_mono hle hparams) hnames
        (value_mono hle (functionBody hbody)) (scope_mono hle hσ))
  | eval =>
    match es with
    | [] => exact .fail _
    | [e] =>
      exact (hev k e σ (hes e (by simp)) hσ).bind fun k' v hk hv =>
        hev k' v σ hv (scope_mono hk hσ)
    | _ :: _ :: _ => exact .fail _
  | sequence => exact evalSequence hev hσ hes
  | conjunction => exact evalConjunction hev hσ hes
  | disjunction => exact evalDisjunction hev hσ hes
  | apply =>
    match es with
    | [] => exact .fail _
    | [_] => exact .fail _
    | [head, list] =>
      refine (hev k head σ (hes head (by simp)) hσ).bind fun k₁ f hk₁ hf => ?_
      cases hf with
      | leaf hf =>
        refine ((hev k list σ (hes list (by simp)) hσ).of_le hk₁).bind fun k₂ v hk₂ hv => ?_
        cases hv with
        | list hitems => exact apply hev (I.mono hk₂ hf) hitems
        | _ => exact .fail _
      | _ => exact .fail _
    | _ :: _ :: _ :: _ => exact .fail _

theorem evaluateApplication {head : Value} (hhead : I.value k head) :
    Run.Keeps I.value k (evaluateApplication ev σ head es) := by
  refine (hev k head σ hhead hσ).bind fun k₁ f hk₁ hf => ?_
  cases hf with
  | leaf hf =>
    refine ((evaluateAll hev hσ hes).of_le hk₁).bind fun k₂ vs hk₂ hvs => ?_
    exact apply hev (I.mono hk₂ hf) hvs
  | _ => exact .fail _

omit hσ hes in
/-- **One level of evaluation keeps the property if its parts do.** -/
theorem evaluateOnce : I.Evaluator (evaluateOnce ev) := by
  intro k e σ he hσ
  cases he with
  | @atom a ha =>
    rw [MiniLisp.evaluateOnce]
    split
    · split
      · rename_i v hv
        exact .pure fun _ hk => value_mono hk (hσ.lookup hv)
      · exact .fail _
    · exact .pure fun _ _ => .atom ha
  | map hkey hv hkeys hvalues =>
    refine (hev k _ σ hv hσ).bind fun k₁ v hk₁ hv => ?_
    have hentries := evaluateEntries hev hσ fun e he => ⟨hkeys e he, hvalues e he⟩
    refine (hentries.of_le hk₁).bind fun k₂ es hk₂ hes => .pure fun k₃ hk₃ => ?_
    exact .map (value_mono (Nat.le_trans hk₁ (Nat.le_trans hk₂ hk₃)) hkey)
      (value_mono (Nat.le_trans hk₂ hk₃) hv) (fun e he => value_mono hk₃ (hes e he).1)
      fun e he => value_mono hk₃ (hes e he).2
  | @list ts hts =>
    cases ts with
    | nil => exact .pure fun _ _ => .nil
    | cons head args =>
      obtain ⟨hhead, hargs⟩ := List.forall_mem_cons.1 hts
      rw [MiniLisp.evaluateOnce]
      split
      · refine (evaluateAll hev hσ hts).bind fun k₁ vs _ hvs => .pure fun k₂ hk₂ => ?_
        exact .list (items_mono hk₂ hvs)
      · refine Run.keeps_step.bind fun k₁ _ hk₁ _ => ?_
        split
        · refine (Run.keeps_note _).bind fun k₂ _ hk₂ _ => ?_
          exact (specialForm hev hσ hargs _).of_le (Nat.le_trans hk₁ hk₂)
        · exact (evaluateApplication hev hσ hargs hhead).of_le hk₁
  | leaf hf => exact .pure fun _ hk => .leaf (I.mono hk hf)

end Evaluation

/-- **Evaluation keeps the property**, by induction on the depth that it has left. -/
theorem evaluate (I : Invariant) (room : Nat) : I.Evaluator (MiniLisp.evaluate room) := by
  induction room with
  | zero => exact fun _ _ _ _ _ => Run.keeps_tooDeep
  | succ room ih => exact evaluateOnce ih

end Invariant

end MiniLisp
