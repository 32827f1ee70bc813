import MiniLisp.Proofs.Builtin.Agreement

/-!
# Comparing two evaluations

Much of what there is to say about evaluation compares two runs: under another step budget, under
another depth limit, in another scope. A `Comparison` is a relation between runs that holds between
the elementary actions of evaluation and passes from the parts of a run to the whole. The main
lemmas say that **evaluation respects every comparison**:

* `Comparison.call`: builtins, `Comparison.apply`: functions in general;
* `Comparison.specialForm`: special forms, by the form;
* `Comparison.evaluateOnce`: one level of evaluation, by the expression, given that the comparison
  holds of how the parts are evaluated;
* `Comparison.evaluate`: by induction on the depth left, evaluation as a whole. The two sides may
  differ in how much depth they have left.
-/

namespace MiniLisp

/-- An error that a program brings about by what it does, as opposed to a limit that it runs into
or a setting that cannot be used. -/
inductive Error.IsOfProgram : Error → Prop
  | ofBuiltin {e : Error} (h : e.IsOfBuiltin) : IsOfProgram e
  | unbound (name : Text) : IsOfProgram (.unbound name)
  | notCallable (shown : Text) : IsOfProgram (.notCallable shown)

theorem Error.IsMisuse.isOfProgram {e : Error} (h : e.IsMisuse) : e.IsOfProgram :=
  .ofBuiltin (.misuse h)

theorem Error.IsOfProgram.ne_depthExceeded {e : Error} (h : e.IsOfProgram) (n : Int) :
    e ≠ .depthExceeded n := by
  rintro rfl
  cases h with
  | ofBuiltin h =>
    cases h with
    | misuse h => cases h

/-- A relation between runs, given one between their results, that holds of the elementary actions
and is kept by sequencing. -/
structure Comparison (C : Correspondence) where
  run : {α β : Type} → (α → β → Prop) → Run α → Run β → Prop
  pure : ∀ {α β : Type} {r : α → β → Prop} {a : α} {b : β}, r a b →
    run r (Pure.pure a) (Pure.pure b)
  bind : ∀ {α β γ δ : Type} {r : α → β → Prop} {q : γ → δ → Prop} {x : Run α} {y : Run β}
    {f : α → Run γ} {g : β → Run δ}, run r x y → (∀ a b, r a b → run q (f a) (g b)) →
    run q (x >>= f) (y >>= g)
  fail : ∀ {α β : Type} {r : α → β → Prop} {e : Error}, e.IsOfProgram →
    run r (Run.fail e) (Run.fail e)
  step : run Eq Run.step Run.step
  note : ∀ e, run Eq (Run.note e) (Run.note e)
  printLine : ∀ t, run Eq (Run.printLine t) (Run.printLine t)
  read : ∀ t, run C.value (Run.read t) (Run.read t)
  /-- New closures correspond if their bodies and scopes do. -/
  newClosure : run (fun serial serial' => ∀ params body body' σ τ, C.value body body' →
    C.scope σ τ → C.callable (.closure serial params body σ) (.closure serial' params body' τ))
    Run.newClosure Run.newClosure

namespace Comparison

variable {C : Correspondence} (K : Comparison C)

section Runs

variable {α β γ δ : Type} {r : α → β → Prop} {q : γ → δ → Prop}

/-- Results that agree, as runs. -/
theorem ofExcept {x : Except Error α} {y : Except Error β}
    (h : Agree (Error.Shared Error.IsOfProgram) r x y) :
    K.run r (Run.ofExcept x) (Run.ofExcept y) := by
  cases h with
  | ok h => exact K.pure h
  | error h =>
    obtain ⟨rfl, he⟩ := h
    exact K.fail he

theorem ofBuiltin {x : Except Error α} {y : Except Error β}
    (h : Agree (Error.Shared Error.IsOfBuiltin) r x y) :
    K.run r (Run.ofExcept x) (Run.ofExcept y) :=
  K.ofExcept (h.mono (fun _ _ he => ⟨he.1, .ofBuiltin he.2⟩) fun _ _ h => h)

theorem ofMisuse {x : Except Error α} {y : Except Error β} (h : AgreeOnMisuse r x y) :
    K.run r (Run.ofExcept x) (Run.ofExcept y) :=
  K.ofExcept (h.mono (fun _ _ he => ⟨he.1, he.2.isOfProgram⟩) fun _ _ h => h)

/-- A misuse, which is the same on both sides. -/
theorem misuse {e : Error} (h : e.IsMisuse) : K.run r (Run.fail e) (Run.fail e) :=
  K.fail h.isOfProgram

theorem mapM {xs : List α} {ys : List β} {f : α → Run γ} {g : β → Run δ}
    (h : List.Forall₂ r xs ys) (hf : ∀ a b, r a b → K.run q (f a) (g b)) :
    K.run (List.Forall₂ q) (xs.mapM f) (ys.mapM g) := by
  induction h with
  | nil => exact K.pure .nil
  | cons hab _ ih =>
    rw [List.mapM_cons, List.mapM_cons]
    refine K.bind (hf _ _ hab) fun c d hcd => ?_
    refine K.bind ih fun cs ds hcds => ?_
    exact K.pure (.cons hcd hcds)

end Runs

section Builtins

variable {v w : Value} {vs ws : List Value}

theorem ofBool (b : Bool) : K.run C.value (Pure.pure (Value.ofBool b)) (Pure.pure (Value.ofBool b)) :=
  K.pure (.atom _)

theorem print (h : List.Forall₂ C.value vs ws) :
    K.run C.value (Run.print vs) (Run.print ws) := by
  refine K.bind (K.ofBuiltin (Agree.mapM h fun _ _ => Structure.shown_agrees)) fun ts us hts => ?_
  rw [List.forall₂_eq_eq_eq] at hts
  rw [hts]
  exact K.bind (K.printLine _) fun _ _ _ => K.pure (.list .nil)

theorem readAtom (h : C.value v w) :
    K.run C.value (do Run.read (← Structure.expectAtom .read v))
      (do Run.read (← Structure.expectAtom .read w)) := by
  refine K.bind (K.ofMisuse (Structure.expectAtom_agrees .read h)) ?_
  rintro t _ rfl
  exact K.read t

/-- The operation does the same with corresponding arguments. -/
def Respects : Operation → Prop
  | .unary f => ∀ a b, C.value a b → K.run C.value (f a) (f b)
  | .binary f => ∀ a b a' b', C.value a b → C.value a' b' → K.run C.value (f a a') (f b b')
  | .variadic f => ∀ as bs, List.Forall₂ C.value as bs → K.run C.value (f as) (f bs)

theorem respects_operation (b : Builtin) : K.Respects b.operation := by
  cases b with
  | add => exact fun _ _ h => K.ofMisuse (Arithmetic.sum_agrees h)
  | sub => exact fun _ _ h => K.ofMisuse (Arithmetic.difference_agrees h)
  | mul => exact fun _ _ h => K.ofMisuse (Arithmetic.product_agrees h)
  | div => exact fun _ _ h => K.ofMisuse (Arithmetic.quotient_agrees h)
  | mod => exact fun _ _ _ _ h h' => K.ofMisuse (Arithmetic.modulo_agrees h h')
  | equal =>
    intro vs ws h
    simp only [Structure.allEqual_eq h]
    exact K.ofBool _
  | unequal =>
    intro vs ws h
    simp only [Structure.allEqual_eq h]
    exact K.ofBool _
  | less => exact fun _ _ h => K.ofMisuse (Arithmetic.comparison_agrees _ _ h)
  | lessEqual => exact fun _ _ h => K.ofMisuse (Arithmetic.comparison_agrees _ _ h)
  | greater => exact fun _ _ h => K.ofMisuse (Arithmetic.comparison_agrees _ _ h)
  | greaterEqual => exact fun _ _ h => K.ofMisuse (Arithmetic.comparison_agrees _ _ h)
  | not =>
    intro v w h
    simp only [Tree.Related.isTrue_eq h]
    exact K.ofBool _
  | list => exact fun _ _ h => K.pure (.list h)
  | first => exact fun _ _ h => K.ofMisuse (Structure.first_agrees h)
  | tail => exact fun _ _ h => K.ofMisuse (Structure.tail_agrees h)
  | cons => exact fun _ _ _ _ h h' => K.ofMisuse (Structure.cons_agrees h h')
  | count => exact fun _ _ h => K.ofMisuse (Structure.count_agrees h)
  | get => exact fun _ _ h => K.ofMisuse (Structure.get_agrees h)
  | keys => exact fun _ _ h => K.ofMisuse (Structure.keys_agrees h)
  | values => exact fun _ _ h => K.ofMisuse (Structure.values_agrees h)
  | isAtom =>
    intro v w h
    simp only [Structure.isAtom_eq h]
    exact K.ofBool _
  | isList =>
    intro v w h
    simp only [Structure.isList_eq h]
    exact K.ofBool _
  | isMap =>
    intro v w h
    simp only [Structure.isMap_eq h]
    exact K.ofBool _
  | isFunction =>
    intro v w h
    simp only [Structure.isTree_eq h]
    exact K.ofBool _
  | concat => exact fun _ _ h => K.ofMisuse (Structure.concat_agrees h)
  | toText => exact fun _ _ h => K.ofBuiltin (Structure.toText_agrees h)
  | read => exact fun _ _ h => K.readAtom h
  | print => exact fun _ _ h => K.print h

/-- The error for a wrong number of arguments, which is the same on both sides. -/
theorem wrongArity {α β : Type} {r : α → β → Prop} (name : Text) (expected : Arity)
    (h : List.Forall₂ C.value vs ws) :
    K.run r (Run.fail (.arity name expected vs.length))
      (Run.fail (.arity name expected ws.length)) := by
  rw [h.length_eq]
  exact K.misuse (.arity _ _ _)

/-- **A builtin does the same with corresponding arguments.** -/
theorem call (b : Builtin) (h : List.Forall₂ C.value vs ws) :
    K.run C.value (b.operation.call b.name vs) (b.operation.call b.name ws) := by
  have hrespects := K.respects_operation b
  generalize b.operation = op at hrespects
  cases op with
  | unary f =>
    match h with
    | .nil => exact K.misuse (.arity _ _ _)
    | .cons h .nil => exact hrespects _ _ h
    | .cons h (.cons h' hs) => exact K.wrongArity b.name (.exactly 1) (.cons h (.cons h' hs))
  | binary f =>
    match h with
    | .nil => exact K.misuse (.arity _ _ _)
    | .cons _ .nil => exact K.misuse (.arity _ _ _)
    | .cons h (.cons h' .nil) => exact hrespects _ _ _ _ h h'
    | .cons h (.cons h' (.cons h'' hs)) =>
      exact K.wrongArity b.name (.exactly 2) (.cons h (.cons h' (.cons h'' hs)))
  | variadic f => exact hrespects _ _ h

end Builtins

section Parts

variable {v w : Value} {vs ws : List Value}

/-- Parameters are bound to corresponding values. -/
theorem forall₂_zip (params : List Text) (h : List.Forall₂ C.value vs ws) :
    List.Forall₂ (fun b c => b.1 = c.1 ∧ C.value b.2 c.2) (params.zip vs) (params.zip ws) := by
  induction h generalizing params with
  | nil => simp
  | cons hv _ ih =>
    cases params with
    | nil => exact .nil
    | cons name params => exact .cons ⟨rfl, hv⟩ (ih params)

theorem symbol?_eq (h : C.value v w) : SpecialForm.symbol? v = SpecialForm.symbol? w := by
  cases h <;> rfl

theorem ofHead?_eq (h : C.value v w) : SpecialForm.ofHead? v = SpecialForm.ofHead? w := by
  cases h <;> rfl

theorem bindingEntries_agrees (h : C.value v w) :
    AgreeOnMisuse (List.Forall₂ C.entry) (SpecialForm.bindingEntries v)
      (SpecialForm.bindingEntries w) := by
  have hshown := Correspondence.inspect_eq h
  have hwrong : AgreeOnMisuse (List.Forall₂ C.entry) (.error (.mismatch (.bindings v.inspect)))
      (.error (.mismatch (.bindings w.inspect))) := .error ⟨by rw [hshown], .mismatch _⟩
  cases h with
  | list hs =>
    cases hs with
    | nil => exact .ok .nil
    | cons _ _ => exact hwrong
  | map hk hv hrest => exact .ok (.cons ⟨hk, hv⟩ hrest)
  | _ => exact hwrong

theorem parameterNames_agrees (h : C.value v w) :
    AgreeOnMisuse Eq (SpecialForm.parameterNames v) (SpecialForm.parameterNames w) := by
  have hshown := Correspondence.inspect_eq h
  have hwrong : AgreeOnMisuse (Eq (α := List Text)) (.error (.mismatch (.parameters v.inspect)))
      (.error (.mismatch (.parameters w.inspect))) := .error ⟨by rw [hshown], .mismatch _⟩
  cases h with
  | list hs =>
    refine Agree.bind (Agree.mapM (q := Eq) hs fun p p' hp => ?_) fun names names' hnames => ?_
    · rw [symbol?_eq hp, Correspondence.inspect_eq hp]
      cases SpecialForm.symbol? p' with
      | some text => exact .ok rfl
      | none => exact .error ⟨rfl, .mismatch _⟩
    · rw [List.forall₂_eq_eq_eq] at hnames
      rw [hnames]
      split
      · exact .ok rfl
      · exact .error ⟨rfl, .mismatch _⟩
  | _ => exact hwrong

theorem functionBody (h : List.Forall₂ C.value vs ws) :
    C.value (SpecialForm.functionBody vs) (SpecialForm.functionBody ws) := by
  match h with
  | .nil => exact .list (.cons (.atom _) (.cons (.list .nil) .nil))
  | .cons h .nil => exact h
  | .cons h (.cons h' hs) => exact .list (.cons (.atom _) (.cons h (.cons h' hs)))

end Parts

section Evaluation

/-- The comparison holds of two ways to evaluate, for corresponding expressions and scopes. -/
def Evaluators (ev ev' : Evaluate) : Prop :=
  ∀ e e' σ τ, C.value e e' → C.scope σ τ → K.run C.value (ev e σ) (ev' e' τ)

variable {K} {ev ev' : Evaluate} (hev : K.Evaluators ev ev')
include hev

/-- **A function does the same with corresponding arguments.** -/
theorem apply {f g : Callable} (hf : C.callable f g) {vs ws : List Value}
    (h : List.Forall₂ C.value vs ws) : K.run C.value (f.apply ev vs) (g.apply ev' ws) := by
  cases C.corresponds hf with
  | builtin copy copy' op => exact K.call op h
  | closure serial serial' params hbody hscope =>
    rw [Callable.apply, Callable.apply, h.length_eq]
    by_cases hlength : params.length = ws.length
    · rw [if_pos hlength, if_pos hlength]
      -- the body runs in the scopes that the closures remember, whatever the callers' scopes are
      refine hev _ _ _ _ hbody (C.extend hscope ?_)
      exact forall₂_zip params h
    · rw [if_neg hlength, if_neg hlength]
      exact K.misuse (.arity _ _ _)

variable {σ τ : Scope} (hscope : C.scope σ τ)
include hscope

/-- Expressions in sequence, as the bodies of functions and of `let` have them. -/
theorem evalSequence {es es' : List Value} (h : List.Forall₂ C.value es es') :
    K.run C.value (SpecialForm.evalSequence ev σ es) (SpecialForm.evalSequence ev' τ es') := by
  induction h with
  | nil => exact K.pure (.list .nil)
  | cons he hes ih =>
    cases hes with
    | nil => exact hev _ _ _ _ he hscope
    | cons _ _ => exact K.bind (hev _ _ _ _ he hscope) fun _ _ _ => ih

theorem evalConjunction {es es' : List Value} (h : List.Forall₂ C.value es es') :
    K.run C.value (SpecialForm.evalConjunction ev σ es)
      (SpecialForm.evalConjunction ev' τ es') := by
  induction h with
  | nil => exact K.ofBool true
  | cons he hes ih =>
    cases hes with
    | nil => exact hev _ _ _ _ he hscope
    | cons _ _ =>
      refine K.bind (hev _ _ _ _ he hscope) fun v w hv => ?_
      rw [Tree.Related.isTrue_eq hv]
      split
      · exact ih
      · exact K.pure hv

theorem evalDisjunction {es es' : List Value} (h : List.Forall₂ C.value es es') :
    K.run C.value (SpecialForm.evalDisjunction ev σ es)
      (SpecialForm.evalDisjunction ev' τ es') := by
  induction h with
  | nil => exact K.ofBool false
  | cons he _ ih =>
    refine K.bind (hev _ _ _ _ he hscope) fun v w hv => ?_
    rw [Tree.Related.isTrue_eq hv]
    split
    · exact K.pure hv
    · exact ih

theorem evalBindings {es es' : List (Value × Value)} (h : List.Forall₂ C.entry es es') :
    K.run (List.Forall₂ fun b c => b.1 = c.1 ∧ C.value b.2 c.2)
      (SpecialForm.evalBindings ev σ es) (SpecialForm.evalBindings ev' τ es') := by
  induction h with
  | nil => exact K.pure .nil
  | @cons e e' es es' he _ ih =>
    obtain ⟨hname, hvalue⟩ := he
    rw [SpecialForm.evalBindings, SpecialForm.evalBindings, symbol?_eq hname,
      Correspondence.inspect_eq hname]
    cases SpecialForm.symbol? e'.1 with
    | none => exact K.misuse (.mismatch _)
    | some text =>
      -- the bindings do not see each other: all of them are evaluated in the same scope
      refine K.bind (hev _ _ _ _ hvalue hscope) fun v w hv => ?_
      refine K.bind ih fun bs cs hbs => ?_
      exact K.pure (.cons ⟨rfl, hv⟩ hbs)

/-- **A special form does the same with corresponding parts.** -/
theorem specialForm (form : SpecialForm) {es es' : List Value} (h : List.Forall₂ C.value es es') :
    K.run C.value (form.run ev σ es) (form.run ev' τ es') := by
  cases form with
  | quote =>
    match h with
    | .nil => exact K.misuse (.arity _ _ _)
    | .cons he .nil => exact K.pure he
    | .cons he (.cons he' hes) => exact K.wrongArity _ _ (.cons he (.cons he' hes))
  | choose =>
    match h with
    | .nil => exact K.misuse (.arity _ _ _)
    | .cons _ .nil => exact K.misuse (.arity _ _ _)
    | .cons hcondition (.cons hyes .nil) =>
      refine K.bind (hev _ _ _ _ hcondition hscope) fun v w hv => ?_
      rw [Tree.Related.isTrue_eq hv]
      split
      · exact hev _ _ _ _ hyes hscope
      · exact K.pure (.list .nil)
    | .cons hcondition (.cons hyes (.cons hno .nil)) =>
      refine K.bind (hev _ _ _ _ hcondition hscope) fun v w hv => ?_
      rw [Tree.Related.isTrue_eq hv]
      split
      · exact hev _ _ _ _ hyes hscope
      · exact hev _ _ _ _ hno hscope
    | .cons h₁ (.cons h₂ (.cons h₃ (.cons h₄ hes))) =>
      exact K.wrongArity _ _ (.cons h₁ (.cons h₂ (.cons h₃ (.cons h₄ hes))))
  | bind =>
    match h with
    | .nil => exact K.misuse (.arity _ _ _)
    | .cons hbindings hbody =>
      refine K.bind (K.ofMisuse (bindingEntries_agrees hbindings)) fun es es' hes => ?_
      refine K.bind (evalBindings hev hscope hes) fun bs cs hbs => ?_
      exact evalSequence hev (C.extend hscope hbs) hbody
  | lambda =>
    match h with
    | .nil => exact K.misuse (.arity _ _ _)
    | .cons hparams hbody =>
      refine K.bind (K.ofMisuse (parameterNames_agrees hparams)) ?_
      rintro names _ rfl
      refine K.bind K.newClosure fun serial serial' hclosure => ?_
      exact K.pure (.leaf (hclosure _ _ _ _ _ (functionBody hbody) hscope))
  | eval =>
    match h with
    | .nil => exact K.misuse (.arity _ _ _)
    | .cons he .nil =>
      exact K.bind (hev _ _ _ _ he hscope) fun _ _ hv => hev _ _ _ _ hv hscope
    | .cons he (.cons he' hes) => exact K.wrongArity _ _ (.cons he (.cons he' hes))
  | sequence => exact evalSequence hev hscope h
  | conjunction => exact evalConjunction hev hscope h
  | disjunction => exact evalDisjunction hev hscope h
  | apply =>
    match h with
    | .nil => exact K.misuse (.arity _ _ _)
    | .cons _ .nil => exact K.misuse (.arity _ _ _)
    | .cons hhead (.cons hlist .nil) =>
      refine K.bind (hev _ _ _ _ hhead hscope) fun f g hf => ?_
      have hwrong : K.run C.value (Run.fail (.notCallable f.inspect))
          (Run.fail (.notCallable g.inspect)) := by
        rw [Correspondence.inspect_eq hf]
        exact K.fail (.notCallable _)
      -- whether it is a function is the same on both sides, and asked before the list is evaluated
      cases hf with
      | leaf hf =>
        refine K.bind (hev _ _ _ _ hlist hscope) fun v w hv => ?_
        have hwrong : K.run C.value (Run.fail (.mismatch (.arguments v.inspect)))
            (Run.fail (.mismatch (.arguments w.inspect))) := by
          rw [Correspondence.inspect_eq hv]
          exact K.misuse (.mismatch _)
        cases hv with
        | list hs => exact apply hev hf hs
        | _ => exact hwrong
      | _ => exact hwrong
    | .cons h₁ (.cons h₂ (.cons h₃ hes)) =>
      exact K.wrongArity _ _ (.cons h₁ (.cons h₂ (.cons h₃ hes)))

theorem evaluateApplication {head head' : Value} {es es' : List Value}
    (hhead : C.value head head') (h : List.Forall₂ C.value es es') :
    K.run C.value (evaluateApplication ev σ head es) (evaluateApplication ev' τ head' es') := by
  refine K.bind (hev _ _ _ _ hhead hscope) fun f g hf => ?_
  have hwrong : K.run C.value (Run.fail (.notCallable (f.display 40)))
      (Run.fail (.notCallable (g.display 40))) := by
    rw [Correspondence.display_eq 40 hf]
    exact K.fail (.notCallable _)
  cases hf with
  | leaf hf =>
    refine K.bind (K.mapM h fun e e' he => hev _ _ _ _ he hscope) fun vs ws hvs => ?_
    exact apply hev hf hvs
  | _ => exact hwrong

omit hscope in
/-- **One level of evaluation respects a comparison that its parts respect.** -/
theorem evaluateOnce : K.Evaluators (evaluateOnce ev) (evaluateOnce ev') := by
  intro e e' σ τ he hscope
  cases he with
  | atom a =>
    rw [MiniLisp.evaluateOnce, MiniLisp.evaluateOnce]
    split
    · have hfound := C.lookup hscope a.text
      generalize σ.lookup? a.text = x, τ.lookup? a.text = y at hfound
      cases hfound with
      | some hv => exact K.pure hv
      | none => exact K.fail (.unbound _)
    · exact K.pure (.atom a)
  | map hk hv hrest =>
    refine K.bind (hev _ _ _ _ hv hscope) fun v w hv => ?_
    have hentries := K.mapM (q := C.entry) hrest
      (f := fun e => do return (e.1, ← ev e.2 σ)) (g := fun e => do return (e.1, ← ev' e.2 τ))
      fun e e' he => by
        obtain ⟨hk, hv⟩ := he
        exact K.bind (hev _ _ _ _ hv hscope) fun _ _ hv => K.pure ⟨hk, hv⟩
    refine K.bind hentries fun es es' hes => ?_
    exact K.pure (.map hk hv hes)
  | list hs =>
    cases hs with
    | nil => exact K.pure (.list .nil)
    | @cons head head' args args' hhead hargs =>
      rw [MiniLisp.evaluateOnce, MiniLisp.evaluateOnce, Tree.Related.isLiteral_eq hhead]
      split
      -- a literal in front: the list is data, and no step is counted
      · refine K.bind (K.mapM (.cons hhead hargs) fun e e' he => hev _ _ _ _ he hscope) ?_
        exact fun vs ws hvs => K.pure (.list hvs)
      · refine K.bind K.step fun _ _ _ => ?_
        rw [ofHead?_eq hhead]
        cases SpecialForm.ofHead? head' with
        | some form =>
          exact K.bind (K.note _) fun _ _ _ => specialForm hev hscope form hargs
        | none => exact evaluateApplication hev hscope hhead hargs
  | leaf hf => exact K.pure (.leaf hf)

end Evaluation

/-- **Evaluation respects a comparison**, also if one side has `k` levels of depth more to use, as
long as the comparison allows for the other one running out of depth. -/
theorem evaluate {k : Nat}
    (hbase : K.Evaluators (fun _ _ => Run.tooDeep) (MiniLisp.evaluate k)) (n : Nat) :
    K.Evaluators (MiniLisp.evaluate n) (MiniLisp.evaluate (n + k)) := by
  induction n with
  | zero =>
    rw [Nat.zero_add]
    exact hbase
  | succ n ih =>
    -- both sides have a level left, and spend it on the same expression
    rw [Nat.succ_add]
    exact evaluateOnce ih

/-- The same expression in the same scope, with more or less depth to use. -/
theorem evaluate_self {K : Comparison .equality} {k : Nat}
    (hbase : K.Evaluators (fun _ _ => Run.tooDeep) (MiniLisp.evaluate k)) (n : Nat) (e : Value)
    (scope : Scope) : K.run Correspondence.equality.value (MiniLisp.evaluate n e scope)
      (MiniLisp.evaluate (n + k) e scope) :=
  K.evaluate hbase n e e scope scope (Correspondence.equality_refl e) rfl

end Comparison

end MiniLisp
