import MiniLisp.Proofs.Environment.Visible
import MiniLisp.Proofs.Evaluation.Abreast
import MiniLisp.Proofs.Evaluation.Renumbering

/-!
# `let` is the call of a function

`(let (x: a y: b) body ...)` and `((lambda (x y) body ...) a b)` are evaluated in different ways: one
builds a frame entry by entry and runs the body in it, the other makes a closure, whose body is put
together from the forms, and then applies it. **They come to the same** (`evaluate_let`), up to the
serial numbers of closures, since the call has made one more, and up to the steps that it takes.

Both are brought into the same shape first, the values of all bindings and then the body in a frame
of them (`evaluate_letting`, `evaluate_lambdaCall`), and are then compared part by part.
-/

namespace MiniLisp

/-! ## The two expressions -/

namespace Value

/-- The bindings of a `let`. -/
def bindingMap : List (Text × Value) → Value
  | [] => Tree.nil
  | b :: bs => .map (symbol b.1) b.2 (bs.map fun b => (symbol b.1, b.2))

/-- The expression `(let (name: value ...) body ...)`. -/
def letting (bindings : List (Text × Value)) (body : List Value) : Value :=
  .list (symbol "let" :: bindingMap bindings :: body)

/-- The expression `(lambda (name ...) body ...)`. -/
def lambda (names : List Text) (body : List Value) : Value :=
  .list (symbol "lambda" :: .list (names.map symbol) :: body)

/-- The expression `((lambda (name ...) body ...) value ...)`. -/
def lambdaCall (bindings : List (Text × Value)) (body : List Value) : Value :=
  .list (lambda (bindings.map Prod.fst) body :: bindings.map Prod.snd)

end Value

open Value (symbol)

/-! ## One shape for both -/

/-- What each item was made from is found again, so all of them are. -/
theorem Except.mapM_map_of_ok {ε α β : Type} {f : α → Except ε β} {g : β → α} {bs : List β}
    (h : ∀ b ∈ bs, f (g b) = .ok b) : (bs.map g).mapM f = .ok bs := by
  induction bs with
  | nil => rfl
  | cons b bs ih =>
    obtain ⟨hb, hrest⟩ := List.forall_mem_cons.1 h
    rw [List.map_cons, List.mapM_cons, hb, ih hrest]
    rfl

namespace SpecialForm

theorem symbol?_symbol {name : Text} (h : (Atom.bare name).isSymbol = true) :
    symbol? (symbol name) = some name := by
  rw [Value.symbol, symbol?, if_pos h]
  rfl

theorem bindingEntries_bindingMap (bindings : List (Text × Value)) :
    bindingEntries (Value.bindingMap bindings) = .ok (bindings.map fun b => (symbol b.1, b.2)) := by
  cases bindings <;> rfl

/-- Names and values go together in the end: the values are evaluated one after the other. -/
theorem evalBindings_eq (ev : Evaluate) (scope : Scope) {bindings : List (Text × Value)}
    (h : ∀ b ∈ bindings, (Atom.bare b.1).isSymbol = true) :
    evalBindings ev scope (bindings.map fun b => (symbol b.1, b.2)) = (do
      let values ← evaluateAll ev scope (bindings.map Prod.snd)
      return (bindings.map Prod.fst).zip values) := by
  induction bindings with
  | nil => rfl
  | cons b bindings ih =>
    obtain ⟨hb, hrest⟩ := List.forall_mem_cons.1 h
    simp only [List.map_cons, evalBindings, symbol?_symbol hb, ih hrest, evaluateAll,
      List.mapM_cons, bind_assoc, pure_bind, List.zip_cons_cons]

/-- Distinct symbols can be parameters. -/
theorem parameterNames_symbols {names : List Text}
    (h : ∀ name ∈ names, (Atom.bare name).isSymbol = true) (hdistinct : names.Nodup) :
    parameterNames (.list (names.map symbol)) = .ok names := by
  rw [parameterNames, Except.mapM_map_of_ok fun name hname => by rw [symbol?_symbol (h name hname)]]
  change (if names.eraseDups.length = names.length then _ else _) = _
  rw [if_pos (by rw [eraseDups_of_nodup hdistinct])]
  rfl

end SpecialForm

/-- There are as many values as expressions, and what comes after may count on that. -/
theorem evaluateAll_bind_congr {α : Type} (ev : Evaluate) (scope : Scope) {es : List Value}
    {f g : List Value → Run α} (h : ∀ values, values.length = es.length → f values = g values) :
    evaluateAll ev scope es >>= f = evaluateAll ev scope es >>= g := by
  induction es generalizing f g with
  | nil => exact h [] rfl
  | cons e es ih =>
    simp only [evaluateAll, List.mapM_cons, bind_assoc, pure_bind]
    refine congrArg _ (funext fun v => ih fun values hvalues => ?_)
    exact h (v :: values) (congrArg (· + 1) hvalues)

section Shape

variable {bindings : List (Text × Value)} (body : List Value) (scope : Scope)

theorem evaluate_lambda {names : List Text}
    (hnames : ∀ name ∈ names, (Atom.bare name).isSymbol = true) (hdistinct : names.Nodup)
    (n : Nat) :
    evaluate (n + 1) (.lambda names body) scope = (do
      Run.step
      Run.note (.specialForm SpecialForm.lambda.name)
      let serial ← Run.newClosure
      return .leaf (.closure serial names (SpecialForm.functionBody body) scope)) := by
  have hform : evaluate (n + 1) (.lambda names body) scope = (do
      Run.step
      Run.note (.specialForm SpecialForm.lambda.name)
      let names ← SpecialForm.parameterNames (.list (names.map symbol))
      let serial ← Run.newClosure
      return .leaf (.closure serial names (SpecialForm.functionBody body) scope)) := rfl
  have hlift : (liftM (.ok names : Except Error _) : Run _) = pure names := rfl
  rw [hform, SpecialForm.parameterNames_symbols hnames hdistinct, hlift]
  simp only [pure_bind]

/-- There are as many values as parameters, so the function takes them. -/
theorem evaluateAll_bind_apply (ev : Evaluate) (serial : Nat) :
    (do let values ← evaluateAll ev scope (bindings.map Prod.snd)
        (Callable.closure serial (bindings.map Prod.fst) (SpecialForm.functionBody body)
          scope).apply ev values) = (do
      let values ← evaluateAll ev scope (bindings.map Prod.snd)
      ev (SpecialForm.functionBody body)
        (scope.extend ((bindings.map Prod.fst).zip values))) := by
  refine evaluateAll_bind_congr ev scope fun values hvalues => ?_
  rw [Callable.apply, if_pos]
  rw [hvalues, List.length_map, List.length_map]

variable (hsymbols : ∀ b ∈ bindings, (Atom.bare b.1).isSymbol = true)
include hsymbols

theorem evaluate_letting (n : Nat) :
    evaluate (n + 1) (.letting bindings body) scope = (do
      Run.step
      Run.note (.specialForm SpecialForm.bind.name)
      let values ← evaluateAll (evaluate n) scope (bindings.map Prod.snd)
      SpecialForm.evalSequence (evaluate n) (scope.extend ((bindings.map Prod.fst).zip values))
        body) := by
  have hform : evaluate (n + 1) (.letting bindings body) scope = (do
      Run.step
      Run.note (.specialForm SpecialForm.bind.name)
      let entries ← SpecialForm.bindingEntries (.bindingMap bindings)
      let frame ← SpecialForm.evalBindings (evaluate n) scope entries
      SpecialForm.evalSequence (evaluate n) (scope.extend frame) body) := rfl
  have hentries (entries : List (Value × Value)) :
      (liftM (.ok entries : Except Error _) : Run _) = pure entries := rfl
  rw [hform, SpecialForm.bindingEntries_bindingMap, hentries, pure_bind,
    SpecialForm.evalBindings_eq _ _ hsymbols, bind_assoc]
  simp only [pure_bind]

/-- The function is made first, then the values are evaluated, then it is applied. -/
theorem evaluate_lambdaCall (hdistinct : (bindings.map Prod.fst).Nodup) (n : Nat) :
    evaluate (n + 2) (.lambdaCall bindings body) scope = (do
      Run.step
      Run.step
      Run.note (.specialForm SpecialForm.lambda.name)
      let _ ← Run.newClosure
      let values ← evaluateAll (evaluate (n + 1)) scope (bindings.map Prod.snd)
      evaluate (n + 1) (SpecialForm.functionBody body)
        (scope.extend ((bindings.map Prod.fst).zip values))) := by
  have hnames : ∀ name ∈ bindings.map Prod.fst, (Atom.bare name).isSymbol = true :=
    List.forall_mem_map.2 hsymbols
  rw [Value.lambdaCall, evaluate_application rfl rfl _ scope (n + 1), evaluateApplication,
    evaluate_lambda body scope hnames hdistinct n]
  simp only [bind_assoc, pure_bind, evaluateAll_bind_apply]

end Shape

/-! ## Part by part -/

section Parts

variable {C : Correspondence} (N : C.Serials)

/-- How many steps more the call takes: one for the function, and one more for a body that had to be
put together from its forms. -/
def SpecialForm.callSteps (body : List Value) : Nat := if body.length = 1 then 1 else 2

/-- The body of the function against the body of the `let`. A form that was put around the body costs
a step, and takes the forms in it one level deeper. -/
theorem functionBody_abreast {body : List Value} (hbody : ∀ e ∈ body, C.value e e) {σ τ : Scope}
    (hscope : C.scope σ τ) (n : Nat) :
    Run.Abreast (Progress.Apart N 1) (Progress.Apart N (SpecialForm.callSteps body)) C.value
      (evaluate (n + 1) (SpecialForm.functionBody body) σ)
      (SpecialForm.evalSequence (evaluate (n + 1)) τ body) := by
  match body with
  | [] =>
    have hquote : evaluate (n + 1) (SpecialForm.functionBody []) σ = (do
        Run.step
        Run.note (.specialForm SpecialForm.quote.name)
        return Tree.nil) := rfl
    rw [hquote]
    refine .step_left (S := Progress.Apart N 2) (fun p q h => h.counted_left) ?_
    refine .note_left (S := Progress.Apart N 2) (fun p q h => h.record _ []) ?_
    exact .pure (.list .nil)
  | [e] =>
    exact Comparison.evaluators_abreast N 1 (n + 1) 0 e e σ τ (hbody e (.head _)) hscope
  | e :: e' :: es =>
    have hsequence : evaluate (n + 1) (SpecialForm.functionBody (e :: e' :: es)) σ = (do
        Run.step
        Run.note (.specialForm SpecialForm.sequence.name)
        SpecialForm.evalSequence (evaluate n) σ (e :: e' :: es)) := rfl
    have hsteps : SpecialForm.callSteps (e :: e' :: es) = 2 := by simp [SpecialForm.callSteps]
    rw [hsequence, hsteps]
    refine .step_left (S := Progress.Apart N 2) (fun p q h => h.counted_left) ?_
    refine .note_left (S := Progress.Apart N 2) (fun p q h => h.record _ []) ?_
    exact Comparison.evalSequence (Comparison.evaluators_abreast N 2 n 1) hscope
      (List.forall₂_same.2 hbody)

/-- So many steps apart as soon as the first run has made a closure that is due. -/
def Progress.ClosureDue (k : Nat) (p q : Progress) : Prop :=
  Progress.Apart N k { p with closures := p.closures + 1 } q

/-- The call against the `let`. The call has to make the closure that it applies. -/
theorem lambdaCall_abreast {bindings : List (Text × Value)} {body : List Value} {scope : Scope}
    (hsymbols : ∀ b ∈ bindings, (Atom.bare b.1).isSymbol = true)
    (hdistinct : (bindings.map Prod.fst).Nodup) (hvalues : ∀ b ∈ bindings, C.value b.2 b.2)
    (hbody : ∀ e ∈ body, C.value e e) (hscope : C.scope scope scope) (n : Nat) :
    Run.Abreast (Progress.ClosureDue N 0) (Progress.Apart N (SpecialForm.callSteps body)) C.value
      (evaluate (n + 2) (.lambdaCall bindings body) scope)
      (evaluate (n + 2) (.letting bindings body) scope) := by
  rw [evaluate_lambdaCall body scope hsymbols hdistinct, evaluate_letting body scope hsymbols]
  refine .bind (S := Progress.ClosureDue N 0) (.step fun p q => Progress.Apart.counted) fun _ _ _ => ?_
  refine .step_left (S := Progress.ClosureDue N 1) (fun p q => Progress.Apart.counted_left) ?_
  refine .note_left (S := Progress.ClosureDue N 1) (fun p q h => Progress.Apart.record h _ []) ?_
  refine .note_right (S := Progress.ClosureDue N 1) (fun p q h => Progress.Apart.record h [] _) ?_
  refine .newClosure_left (S := Progress.Apart N 1) (fun p q h => h) fun _ => ?_
  -- the values of the bindings are evaluated at the same depth on both sides
  have hargs : List.Forall₂ C.value (bindings.map Prod.snd) (bindings.map Prod.snd) :=
    List.forall₂_same.2 (List.forall_mem_map.2 hvalues)
  refine .bind ((Comparison.abreast N 1).mapM hargs fun e e' he =>
    Comparison.evaluators_abreast N 1 (n + 1) 0 e e' scope scope he hscope) fun vs ws hvs => ?_
  exact functionBody_abreast N hbody (C.extend hscope (Comparison.forall₂_zip _ hvs)) n

end Parts

/-- Closures take each other's place if their serial numbers belong together. -/
def Correspondence.Serials.renumbered (ids : Identities) :
    (Correspondence.renumbered ids).Serials where
  next m n := ∀ j, ids.rel (m + j) (n + j)
  succ h := ids.rel_succ h
  closure h params _ _ _ _ hbody hscope := .closure params (h 0) hbody hscope

/-- **`let` is the call of a function.** For distinct symbols and whatever stands for their values
and in the body, and in every scope, the two end alike unless one of them is stopped by a limit: with
the same value up to the serial numbers of closures that they have made themselves, or with the same
error. They have printed the same, and where they succeed the call has taken one step more, or two
if the body is not a single form. -/
theorem evaluate_let {bindings : List (Text × Value)} {body : List Value} {scope : Scope}
    {p : Progress} (hsymbols : ∀ b ∈ bindings, (Atom.bare b.1).isSymbol = true)
    (hdistinct : (bindings.map Prod.fst).Nodup) (hvalues : ∀ b ∈ bindings, b.2.Made p.closures)
    (hbody : ∀ e ∈ body, e.Made p.closures) (hscope : scope.Made p.closures) (l : Limits) :
    let call := Run.evaluate (.lambdaCall bindings body) scope l p
    let lets := Run.evaluate (.letting bindings body) scope l p
    ¬ Stopped call.1 → ¬ Stopped lets.1 →
      ∃ ids : Identities, (∀ n < p.closures, ids.rel n n) ∧
        Agree Eq (Value.Renumbered ids) call.1 lets.1 ∧ call.2.output = lets.2.output ∧
        ∀ v, lets.1 = .ok v → call.2.steps = lets.2.steps + if body.length = 1 then 1 else 2 := by
  intro call lets hcall hlets
  -- the closure that the call makes has no counterpart, so later ones are one number apart
  let ids : Identities := .beyond (Nat.le_succ p.closures) (Nat.le_refl p.closures)
  have hold (n : Nat) (hn : n < p.closures) : ids.rel n n := Identities.beyond_self _ _ hn
  have hrefl {v : Value} (hv : v.Made p.closures) : v.Renumbered ids v :=
    Value.renumbered_refl hold hv
  have hscopes : scope.Renumbered ids scope :=
    List.forall₂_same.2 fun frame hframe => List.forall₂_same.2 fun b hb =>
      .mk b.1 (hrefl (hscope frame hframe b hb))
  have hends : EndAlike (Progress.Apart (.renumbered ids) (SpecialForm.callSteps body))
      (Value.Renumbered ids) call lets := by
    by_cases hn : l.depth.toNat < 2
    · exact .left (application_stopped rfl rfl _ scope hn l p)
    · obtain ⟨n, hdepth⟩ := Nat.exists_eq_add_of_le' (Nat.le_of_not_lt hn)
      have habreast := lambdaCall_abreast (.renumbered ids) hsymbols hdistinct
        (fun b hb => hrefl (hvalues b hb)) (fun e he => hrefl (hbody e he)) hscopes n
      rw [← hdepth] at habreast
      exact habreast l p p ⟨rfl, rfl, Identities.beyond_add _ _⟩
  exact ⟨ids, hold, hends.results hcall hlets⟩

/-- The body prints `x` and returns the closure bound to `f`, in a scope in which `do` and `lambda`
are bound to something else. The closure is the first that the `let` makes and the second that the
call makes, and the call takes two steps more. -/
theorem evaluate_let_closure :
    let bindings : List (Text × Value) := [("x", symbol "1"),
      ("f", .list [symbol "lambda", .list [symbol "y"], symbol "y"])]
    let body : List Value := [.list [symbol "print", symbol "x"], symbol "f"]
    let scope : Scope := (Scope.standard 0).extend [("do", .nil), ("lambda", .nil)]
    let call := Run.evaluate (.lambdaCall bindings body) scope ⟨some 6, 4, .ok 0⟩ .start
    let lets := Run.evaluate (.letting bindings body) scope ⟨some 6, 4, .ok 0⟩ .start
    call.1 = .ok (.leaf (.closure 1 ["y"] (symbol "y") scope)) ∧
      lets.1 = .ok (.leaf (.closure 0 ["y"] (symbol "y") scope)) ∧ lets.2.output = "1\n" ∧
      ∃ ids : Identities, (∀ n < 0, ids.rel n n) ∧
        Agree Eq (Value.Renumbered ids) call.1 lets.1 ∧ call.2.output = lets.2.output ∧
        ∀ v, lets.1 = .ok v → call.2.steps = lets.2.steps + 2 := by
  intro bindings body scope call lets
  have hcall : call.1 = .ok (.leaf (.closure 1 ["y"] (symbol "y") scope)) := rfl
  have hlets : lets.1 = .ok (.leaf (.closure 0 ["y"] (symbol "y") scope)) := rfl
  have hnil : Value.Made 0 .nil := .nil
  have hscope : Scope.Made 0 scope := Environment.All.extend (Invariant.made.scope_standard 0 0) <|
    List.forall_mem_cons.2 ⟨hnil, List.forall_mem_singleton.2 hnil⟩
  have hatom (name : Text) : (symbol name).Made 0 := .atom trivial
  have hlambda : Value.Made 0 (.list [symbol "lambda", .list [symbol "y"], symbol "y"]) := by
    refine .list (List.forall_mem_cons.2 ⟨hatom _, List.forall_mem_cons.2 ⟨.list ?_, ?_⟩⟩)
    · exact List.forall_mem_singleton.2 (hatom _)
    · exact List.forall_mem_singleton.2 (hatom _)
  have hprint : Value.Made 0 (.list [symbol "print", symbol "x"]) :=
    .list (List.forall_mem_cons.2 ⟨hatom _, List.forall_mem_singleton.2 (hatom _)⟩)
  refine ⟨hcall, hlets, rfl, @evaluate_let bindings body scope .start (by decide) (by decide) ?_ ?_
    hscope ⟨some 6, 4, .ok 0⟩ (not_stopped_of_ok hcall) (not_stopped_of_ok hlets)⟩
  · exact List.forall_mem_cons.2 ⟨hatom _, List.forall_mem_singleton.2 hlambda⟩
  · exact List.forall_mem_cons.2 ⟨hprint, List.forall_mem_singleton.2 (hatom _)⟩

end MiniLisp
