import MiniLisp.Proofs.Evaluation.Literal
import MiniLisp.Proofs.Session.History

/-!
# Closures keep the view they were made with

A closure runs in the scope that it remembers, and nothing that happens in a session changes that
scope: names are bound in new frames in front of the session's own. So **a call of the closure comes
to the same at every later point** of the session (`Session.call_agrees`): the same value, up to the
serial numbers of the closures that the call makes, or the same error, and the same text printed.

* `evaluate_eq_of_isLiteral`, `evaluate_call_eq`: literals and functions, and so a call of a function
  with such arguments, evaluate alike in all scopes.
-/

namespace MiniLisp

/-! ## Expressions without names -/

namespace Tree

variable {α : Type}

/-- What holds of all leaves of a tree holds of each. -/
theorem All.leaf_of_mem {p : Atom → Prop} {q : α → Prop} {t : Tree α} (h : t.All p q) {a : α}
    (ha : a ∈ t.leaves) : q a := by
  induction h with
  | atom _ => cases ha
  | list _ ih =>
    rw [leaves_list, List.mem_flatMap] at ha
    obtain ⟨t, ht, ha⟩ := ha
    exact ih t ht ha
  | map _ _ _ _ ihkey ihvalue ihkeys ihvalues =>
    simp only [leaves_map, List.mem_append, List.mem_flatMap] at ha
    rcases ha with ha | ha | ⟨e, he, ha | ha⟩
    · exact ihkey ha
    · exact ihvalue ha
    · exact ihkeys e he ha
    · exact ihvalues e he ha
  | leaf hb =>
    obtain rfl := List.mem_singleton.1 ha
    exact hb

end Tree

section Nameless

theorem Run.mapM_congr {α β : Type} {f g : α → Run β} {xs : List α} (h : ∀ a ∈ xs, f a = g a) :
    xs.mapM f = xs.mapM g := by
  induction xs with
  | nil => rfl
  | cons a xs ih =>
    obtain ⟨ha, hxs⟩ := List.forall_mem_cons.1 h
    rw [List.mapM_cons, List.mapM_cons, ha, ih hxs]

/-- A literal tree evaluates alike in all scopes, since there is no name in it to look up. -/
theorem evaluate_eq_of_isLiteral {e : Value} (h : e.isLiteral = true) (room : Nat) (σ τ : Scope) :
    evaluate room e σ = evaluate room e τ := by
  rw [evaluate_of_isLiteral h, evaluate_of_isLiteral h]

/-- A literal tree or a function: what may be handed to a function as it is. -/
def Value.IsOperand (e : Value) : Prop := e.isLiteral = true ∨ ∃ f : Callable, e = .leaf f

theorem Value.IsOperand.evaluate_eq {e : Value} (h : e.IsOperand) (room : Nat) (σ τ : Scope) :
    evaluate room e σ = evaluate room e τ := by
  rcases h with h | ⟨f, rfl⟩
  · exact evaluate_eq_of_isLiteral h room σ τ
  · cases room <;> rfl

/-- **A call of a function with such arguments evaluates alike in all scopes.** -/
theorem evaluate_call_eq (f : Callable) {args : List Value} (h : ∀ a ∈ args, a.IsOperand)
    (room : Nat) (σ τ : Scope) :
    evaluate room (.list (.leaf f :: args)) σ = evaluate room (.list (.leaf f :: args)) τ := by
  cases room with
  | zero => rfl
  | succ room =>
    have hhead := Value.IsOperand.evaluate_eq (.inr ⟨f, rfl⟩) room σ τ
    have hargs : evaluateAll (evaluate room) σ args = evaluateAll (evaluate room) τ args :=
      Run.mapM_congr fun a ha => (h a ha).evaluate_eq room σ τ
    have hliteral : (Tree.leaf f : Value).isLiteral = false := rfl
    simp only [evaluate, evaluateOnce, hliteral, Bool.false_eq_true, if_false,
      SpecialForm.ofHead?, evaluateApplication, hhead, hargs]

end Nameless

/-! ## Two points of a session -/

theorem Progress.output_append {p : Progress} {base new : List Text}
    (h : p.printed = new ++ base) :
    p.output = base.reverse.flatten ++ new.reverse.flatten := by
  rw [output, h, List.reverse_append, List.flatten_append]

namespace Session

/-- An expression without names that has been made evaluates alike at two points of a session with
the same limits. -/
theorem evaluate_agrees (vars : Variables) {s₁ s₂ : Session} {k : Nat} {e : Value}
    (hbudget : s₁.budget = s₂.budget) (hdepth : s₁.depth = s₂.depth)
    (hk₁ : k ≤ s₁.progress.closures) (hk₂ : k ≤ s₂.progress.closures) (he : e.Made k)
    (hscope : ∀ room σ τ, MiniLisp.evaluate room e σ = MiniLisp.evaluate room e τ) :
    Agree Eq (Value.Renumbered (.beyond hk₁ hk₂)) (evaluate vars e s₁).1 (evaluate vars e s₂).1 ∧
      ∃ t, (evaluate vars e s₁).2.progress.output = s₁.progress.output ++ t ∧
        (evaluate vars e s₂).2.progress.output = s₂.progress.output ++ t := by
  rw [evaluate_apply, evaluate_apply, hbudget, hdepth]
  cases vars.limits s₂.budget s₂.depth with
  | error err => exact ⟨.error rfl, [], by simp, by simp⟩
  | ok limits =>
    -- the scopes of the session are of no matter, so compare in one and the same
    let σ : Scope := .root []
    have hsame (τ : Scope) (p : Progress) : Run.evaluate e τ limits p = Run.evaluate e σ limits p :=
      congrFun (congrFun (hscope limits.depth.toNat τ σ) limits) p
    have hσ : σ.Renumbered (.beyond hk₁ hk₂) σ := .cons .nil .nil
    have hrefl : e.Renumbered (.beyond hk₁ hk₂) e :=
      Value.renumbered_refl (fun _ => Identities.beyond_self hk₁ hk₂) he
    have hstart : Progress.Renumbered (.beyond hk₁ hk₂) s₁.progress.printed s₂.progress.printed
        { s₁.progress with steps := 0 } { s₂.progress with steps := 0 } :=
      ⟨rfl, ⟨[], rfl, rfl⟩, Identities.beyond_add hk₁ hk₂⟩
    obtain ⟨hresult, hprogress⟩ := evaluate_renumbered hrefl hσ hstart limits
    obtain ⟨new, hnew₁, hnew₂⟩ := hprogress.printed
    simp only [hsame s₁.scope, hsame s₂.scope]
    exact ⟨hresult, new.reverse.flatten, Progress.output_append hnew₁,
      Progress.output_append hnew₂⟩

/-- **Closures keep the view they were made with.** Let `c` be a function in what some action of a
session handed back, and let the arguments be literal trees, or functions that have been made by some
later point `now`. Whatever happens after that, and however often names are bound anew, a call of `c`
with these arguments comes to the same at any two points: the same error, or the same value up to the
serial numbers of closures that did not exist at `now`, and the same text printed. -/
theorem call_agrees {vars vars' : Variables} {start before after now s₁ s₂ : Session}
    {action : Action} {v : Value} {c : Callable} {args : List Value} (hstart : start.Made)
    (hbefore : start.Later before) (haction : action.Made before.progress.closures)
    (hstep : action.run vars' before = (.ok (some v), after)) (hc : c ∈ v.leaves)
    (hnow : after.Later now) (hargs : ∀ a ∈ args, a.IsOperand ∧ a.Made now.progress.closures)
    (h₁ : now.Later s₁) (h₂ : now.Later s₂) :
    let call : Value := .list (.leaf c :: args)
    ∃ ids : Identities, (∀ n < now.progress.closures, ids.rel n n) ∧
      Agree Eq (Value.Renumbered ids) (evaluate vars call s₁).1 (evaluate vars call s₂).1 ∧
      ∃ t, (evaluate vars call s₁).2.progress.output = s₁.progress.output ++ t ∧
        (evaluate vars call s₂).2.progress.output = s₂.progress.output ++ t := by
  intro call
  have hmade := (hbefore.keeps hstart).2
  obtain ⟨-, hmade, hresult⟩ := keeps_run vars' haction before hmade (Nat.le_refl _)
  rw [hstep] at hmade hresult
  have hv : v.Made after.progress.closures := hresult (some v) rfl v rfl
  obtain ⟨hlater, hmade⟩ := hnow.keeps hmade
  obtain ⟨honward₁, -⟩ := h₁.keeps hmade
  obtain ⟨honward₂, -⟩ := h₂.keeps hmade
  have hcall : call.Made now.progress.closures := by
    refine .list (List.forall_mem_cons.2 ⟨.leaf ?_, fun a ha => (hargs a ha).2⟩)
    exact (hv.leaf_of_mem hc).mono hlater.closures
  have hscope (room : Nat) (σ τ : Scope) :=
    evaluate_call_eq c (fun a ha => (hargs a ha).1) room σ τ
  refine ⟨.beyond honward₁.closures honward₂.closures, fun _ => Identities.beyond_self _ _, ?_⟩
  exact evaluate_agrees vars (honward₁.budget.trans honward₂.budget.symm)
    (honward₁.depth.trans honward₂.depth.symm) honward₁.closures honward₂.closures hcall hscope

/-- The function prints `x` and makes a closure, here called after the session has bound `x` and
`print` to the empty list and has made another closure. It prints what it did before, and the closure
that it makes differs in its serial number only. -/
theorem call_agrees_rebound :
    let vars : Variables := ⟨none, none, none, none⟩
    let start : Session := ⟨Scope.standard 0, none, some 5, .start⟩
    let before := (Action.run vars (.bind "x" (.atom (Atom.bare "1"))) start).2
    let lambda : Datum := .atom (Atom.bare "lambda")
    let x : Datum := .atom (Atom.bare "x")
    let body : Datum := .list [.atom (Atom.bare "do"), .list [.atom (Atom.bare "print"), x],
      .list [lambda, .list [], x]]
    let e : Value := Tree.ofDatum (.list [lambda, .list [.atom (Atom.bare "y")], body])
    let after := (Action.run vars (.evaluate e) before).2
    let bound := (Action.run vars (.bind "print" .nil) (Action.run vars (.bind "x" .nil) after).2).2
    let later := (Action.run vars (.evaluate e) bound).2
    let c : Callable := .closure 0 ["y"] body before.scope
    let call : Value := .list [.leaf c, .atom (Atom.quoted "z")]
    Action.run vars (.evaluate e) before = (.ok (some (.leaf c)), after) ∧
      after.progress.closures = 1 ∧ later.progress.closures = 2 ∧ after.Later later ∧
      (evaluate vars call later).2.progress.output = "1\n" ∧
      ∃ ids : Identities, (∀ n < 1, ids.rel n n) ∧
        Agree Eq (Value.Renumbered ids) (evaluate vars call after).1 (evaluate vars call later).1 ∧
        ∃ t, (evaluate vars call after).2.progress.output = after.progress.output ++ t ∧
          (evaluate vars call later).2.progress.output = later.progress.output ++ t := by
  intro vars start before lambda x body e after bound later c call
  have hstart : start.Made := made_standard 0 none (some 5) .start
  have hbefore : start.Later before := .single ⟨vars, .bind "x" _, .atom trivial, rfl⟩
  have he (k : Nat) : (Action.evaluate e).Made k := Value.made_ofDatum k _
  have hstep : Action.run vars (.evaluate e) before = (.ok (some (.leaf c)), after) := rfl
  have hhidden : after.Later (Action.run vars (.bind "x" .nil) after).2 :=
    .single ⟨vars, .bind "x" .nil, .nil, rfl⟩
  have hbound : after.Later bound := .tail hhidden ⟨vars, .bind "print" .nil, .nil, rfl⟩
  have hlater : after.Later later := .tail hbound ⟨vars, .evaluate e, he _, rfl⟩
  refine ⟨hstep, rfl, rfl, hlater, rfl, ?_⟩
  refine call_agrees hstart hbefore (he 0) hstep (List.mem_singleton.2 rfl) .refl ?_ .refl hlater
  exact List.forall_mem_singleton.2 ⟨.inl rfl, .atom trivial⟩

end Session

end MiniLisp
