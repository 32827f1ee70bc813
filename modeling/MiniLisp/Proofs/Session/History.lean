import Mathlib.Logic.Relation
import MiniLisp.Proofs.Evaluation.Renumbering
import MiniLisp.Session

/-!
# Histories of sessions

What happens in a session is a sequence of actions, each of which may succeed or fail and leaves a
session either way. `Session.Later s s'` says that some sequence of actions leads from `s` to `s'`,
under settings that may change on the way. The values that are handed to a session from outside may
hold functions, as long as these have been made by then.

Through every history **the limits of a session stay the same, no closure is taken back, and all the
session holds has been made** (`Session.Later.keeps`). What one step does is said once, for
`SessionStep.Keeps`, and passes from the parts of an action to the whole.
-/

namespace MiniLisp

namespace SessionStep

variable {α β : Type}

theorem bind_apply (x : SessionStep α) (f : α → SessionStep β) (s : Session) :
    (x >>= f) s =
      match x s with
      | (.ok a, s) => f a s
      | (.error e, s) => (.error e, s) := by
  change (ExceptT.bindCont f (x s).1) (x s).2 = _
  rcases x s with ⟨_ | _, _⟩ <;> rfl

end SessionStep

namespace Session

/-- Something that is asked of a session. -/
inductive Action
  | read (source : Source)
  | eval (source : Source)
  | evaluate (e : Value)
  | load (source : Source)
  | bind (name : Text) (value : Value)
  | define (source : Source)

/-- Do what is asked, and hand back a value if the action has one. -/
def Action.run (vars : Variables) : Action → SessionStep (Option Value)
  | .read source => do return some (Tree.ofDatum (← Session.read vars source))
  | .eval source => do return some (← Session.eval vars source)
  | .evaluate e => do return some (← Session.evaluate vars e)
  | .load source => do return some (← Session.load vars source)
  | .bind name value => do
    Session.bind name value
    return none
  | .define source => do
    Session.define vars source
    return none

/-- The functions in what is handed over are among the first `k`. -/
def Action.Made (k : Nat) : Action → Prop
  | .evaluate e => e.Made k
  | .bind _ value => value.Made k
  | .read _ | .eval _ | .load _ | .define _ => True

/-- All functions that the session holds have been made, as they have where a session starts. -/
def Made (s : Session) : Prop := s.scope.Made s.progress.closures

theorem made_standard (copy : Nat) (budget depth : Option Int) (p : Progress) :
    Made ⟨Scope.standard copy, budget, depth, p⟩ :=
  Invariant.made.scope_standard p.closures copy

/-- An action leads from one session to the next, whether it fails or not, and whatever the settings
are at the time. -/
def Next (s s' : Session) : Prop :=
  ∃ (vars : Variables) (action : Action), action.Made s.progress.closures ∧
    (action.run vars s).2 = s'

/-- Actions lead from one session to the other. -/
def Later : Session → Session → Prop := Relation.ReflTransGen Next

/-- The same limits, and no closure taken back. -/
structure Onward (s s' : Session) : Prop where
  budget : s'.budget = s.budget
  depth : s'.depth = s.depth
  closures : s.progress.closures ≤ s'.progress.closures

theorem Onward.refl (s : Session) : s.Onward s := ⟨rfl, rfl, Nat.le_refl _⟩

theorem Onward.trans {s s' s'' : Session} (h : s.Onward s') (h' : s'.Onward s'') : s.Onward s'' :=
  ⟨h'.budget.trans h.budget, h'.depth.trans h.depth, Nat.le_trans h.closures h'.closures⟩

end Session

/-! ## Steps -/

/-- Started after at least `k` closures in a session whose functions have been made, the step goes on
to such a session, and its result has the property `P` for the closures made by then. -/
def SessionStep.Keeps {α : Type} (P : Nat → α → Prop) (k : Nat) (x : SessionStep α) : Prop :=
  ∀ s : Session, s.Made → k ≤ s.progress.closures →
    s.Onward (x s).2 ∧ (x s).2.Made ∧ Yields (P (x s).2.progress.closures) (x s).1

namespace SessionStep.Keeps

variable {α β : Type} {P : Nat → α → Prop} {Q : Nat → β → Prop} {k : Nat}

theorem pure {a : α} (h : ∀ k', k ≤ k' → P k' a) : Keeps P k (Pure.pure a : SessionStep α) :=
  fun s hs hk => ⟨.refl s, hs, .ok (h _ hk)⟩

theorem throw (e : Error) : Keeps P k (MonadExcept.throw e : SessionStep α) :=
  fun s hs _ => ⟨.refl s, hs, .error e⟩

theorem bind {x : SessionStep α} {f : α → SessionStep β} (hx : Keeps P k x)
    (hf : ∀ k' a, k ≤ k' → P k' a → Keeps Q k' (f a)) : Keeps Q k (x >>= f) := by
  intro s hs hk
  obtain ⟨honward, hmade, hresult⟩ := hx s hs hk
  rw [bind_apply]
  rcases hxs : x s with ⟨e | a, s'⟩
  · rw [hxs] at honward hmade
    exact ⟨honward, hmade, .error e⟩
  · rw [hxs] at honward hmade hresult
    obtain ⟨honward', hmade', hresult'⟩ := hf s'.progress.closures a
      (Nat.le_trans hk honward.closures) (hresult a rfl) s' hmade (Nat.le_refl _)
    exact ⟨honward.trans honward', hmade', hresult'⟩

end SessionStep.Keeps

/-- There are no functions in a datum. -/
theorem Value.made_ofDatum (k : Nat) (d : Datum) : Value.Made k (Tree.ofDatum d) := by
  suffices hd : d.All (fun _ => True) (fun _ => True) from Tree.all_ofDatum.2 hd
  induction d using Tree.induct with
  | atom a => exact .atom trivial
  | list ts ih => exact .list ih
  | map key value rest hkey hvalue ih =>
    exact .map hkey hvalue (fun e he => (ih e he).1) fun e he => (ih e he).2
  | leaf a => exact a.elim

namespace Session

open SessionStep (Keeps)

variable (vars : Variables) {k : Nat}

theorem keeps_absorb (outcome : Source.Outcome) :
    Keeps (fun _ _ => True) k (absorb outcome) := by
  intro s hs _
  obtain ⟨result, events⟩ := outcome
  cases result with
  | ok d => exact ⟨⟨rfl, rfl, Nat.le_refl _⟩, hs, fun _ _ => trivial⟩
  | error e => exact ⟨⟨rfl, rfl, Nat.le_refl _⟩, hs, fun _ _ => trivial⟩

theorem keeps_read (source : Source) : Keeps (fun _ _ => True) k (read vars source) :=
  keeps_absorb _

/-- What evaluating comes to. -/
theorem evaluate_apply (e : Value) (s : Session) :
    evaluate vars e s =
      match vars.limits s.budget s.depth with
      | .error err => (.error (.setting err), s)
      | .ok limits =>
        ((Run.evaluate e s.scope limits { s.progress with steps := 0 }).1,
          { s with
            progress := (Run.evaluate e s.scope limits { s.progress with steps := 0 }).2 }) := by
  rw [evaluate, SessionStep.bind_apply]
  change (match vars.limits s.budget s.depth with
    | .error err => throw (.setting err)
    | .ok limits => _ : SessionStep Value) s = _
  cases vars.limits s.budget s.depth with
  | error err => rfl
  | ok limits =>
    rcases Run.evaluate e s.scope limits { s.progress with steps := 0 } with ⟨_ | _, _⟩ <;> rfl

theorem keeps_evaluate {e : Value} (he : e.Made k) : Keeps Value.Made k (evaluate vars e) := by
  intro s hs hk
  rw [evaluate_apply]
  cases vars.limits s.budget s.depth with
  | error err => exact ⟨.refl s, hs, .error _⟩
  | ok limits =>
    obtain ⟨hclosures, hresult⟩ := Invariant.made.evaluate limits.depth.toNat s.progress.closures e
      s.scope (he.mono hk) hs limits { s.progress with steps := 0 } (Nat.le_refl _)
    exact ⟨⟨rfl, rfl, hclosures⟩, Invariant.scope_mono (I := .made) hclosures hs, hresult⟩

/-- A document is read, from wherever, and evaluated. -/
theorem keeps_document (outcome : Source.Outcome) :
    Keeps Value.Made k (do evaluate vars (← absorb outcome)) :=
  (keeps_absorb outcome).bind fun k' d _ _ => keeps_evaluate vars (Value.made_ofDatum k' d)

theorem keeps_bind (name : Text) {value : Value} (h : value.Made k) :
    Keeps (fun _ _ => True) k (Session.bind name value) := by
  intro s hs hk
  have hscope : Scope.Made s.progress.closures (s.scope.extend [(name, value)]) :=
    Environment.All.extend hs (List.forall_mem_singleton.2 (h.mono hk))
  exact ⟨⟨rfl, rfl, Nat.le_refl _⟩, hscope, fun _ _ => trivial⟩

theorem keeps_bindAll (entries : List (Datum × Datum)) :
    Keeps (fun _ _ => True) k (bindAll vars entries) := by
  induction entries generalizing k with
  | nil => exact .pure fun _ _ => trivial
  | cons entry rest ih =>
    obtain ⟨key, e⟩ := entry
    rw [bindAll]
    split
    · exact .throw _
    · refine (keeps_evaluate vars (Value.made_ofDatum k e)).bind fun k₁ v _ hv => ?_
      exact (keeps_bind _ hv).bind fun _ _ _ _ => ih

theorem keeps_define (source : Source) : Keeps (fun _ _ => True) k (define vars source) := by
  refine (keeps_read vars source).bind fun _ d _ _ => ?_
  split
  · exact keeps_bindAll vars _
  · exact .throw _

/-- Every function in what is handed back is among the first `k`. -/
def ResultMade (k : Nat) (result : Option Value) : Prop := ∀ v, result = some v → Value.Made k v

theorem keeps_some {x : SessionStep Value} (hx : Keeps Value.Made k x) :
    Keeps ResultMade k (do return some (← x)) := by
  refine hx.bind fun k₁ v _ hv => .pure fun k₂ hk₂ w hw => ?_
  cases hw
  exact hv.mono hk₂

theorem keeps_none {x : SessionStep Unit} (hx : Keeps (fun _ _ => True) k x) :
    Keeps ResultMade k (do x; return none) :=
  hx.bind fun _ _ _ _ => .pure fun _ _ _ hv => nomatch hv

/-- **Every action keeps what has been made**, and hands back only that. -/
theorem keeps_run {action : Action} (h : action.Made k) :
    Keeps ResultMade k (action.run vars) := by
  cases action with
  | read source =>
    refine (keeps_read vars source).bind fun k₁ d _ _ => .pure fun k₂ _ v hv => ?_
    cases hv
    exact Value.made_ofDatum k₂ d
  | eval source => exact keeps_some (keeps_document vars _)
  | evaluate e => exact keeps_some (keeps_evaluate vars h)
  | load source => exact keeps_some (keeps_document vars _)
  | bind name value => exact keeps_none (keeps_bind name h)
  | define source => exact keeps_none (keeps_define vars source)

variable {s s' : Session}

/-- The step lemma. -/
theorem Next.keeps (h : s.Next s') (hs : s.Made) : s.Onward s' ∧ s'.Made := by
  obtain ⟨vars, action, haction, rfl⟩ := h
  obtain ⟨honward, hmade, -⟩ := keeps_run vars haction s hs (Nat.le_refl _)
  exact ⟨honward, hmade⟩

/-- **Through every history** the limits stay the same, no closure is taken back, and all the session
holds has been made. -/
theorem Later.keeps (h : s.Later s') (hs : s.Made) : s.Onward s' ∧ s'.Made := by
  induction h with
  | refl => exact ⟨.refl s, hs⟩
  | tail _ hnext ih =>
    obtain ⟨honward, hmade⟩ := hnext.keeps ih.2
    exact ⟨ih.1.trans honward, hmade⟩

end Session

end MiniLisp
