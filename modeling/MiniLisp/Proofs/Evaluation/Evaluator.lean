import MiniLisp.Proofs.Evaluation.Budget
import MiniLisp.Proofs.Evaluation.Headstart
import MiniLisp.Proofs.Evaluation.Program

/-!
# An evaluator that is used again

An evaluator counts the steps of all its calls against one budget, and counts how deep it is: a call
goes one level deeper, and comes back from there however it ends. `Evaluator.Runs` says so, for every
program that is made up of actions and calls. That evaluation as it is defined does without this
counter makes no difference (`Evaluator.runs_call_iff`), since **the depth is the same after a call
as before it**, and the levels that are left follow from it.

So between calls the depth is back to zero, and all that is left of earlier calls, whatever came of
them, is the number of steps. **A call then comes to what it would come to in a fresh evaluator with
so much less of a budget** (`Evaluator.Used.call_eq_fresh`), except that it names the whole budget if
it exceeds that. If the budget has been exceeded before, it fails at its first step.
-/

namespace MiniLisp

/-- An evaluator at some point of its work: how deep it is, and what has been done so far. -/
structure Evaluator where
  depth : Int
  progress : Progress

namespace Evaluator

def enter (s : Evaluator) : Evaluator := { s with depth := s.depth + 1 }

def leave (s : Evaluator) : Evaluator := { s with depth := s.depth - 1 }

/-- A program under these limits, started at one point, comes to this result at the other point. A
call goes one level deeper, and back from there however it ends, also if that is too deep. -/
inductive Runs (l : Limits) : {α : Type} → (Evaluate → Run α) → Evaluator → Except Error α →
    Evaluator → Prop
  | act {α : Type} (x : Run α) (s : Evaluator) :
      Runs l (fun _ => x) s (x l s.progress).1 { s with progress := (x l s.progress).2 }
  | tooDeep (e : Value) (scope : Scope) {s : Evaluator} (h : l.depth < s.enter.depth) :
      Runs l (fun ev => ev e scope) s (.error (.depthExceeded l.depth))
        (leave { s.enter with progress := s.progress.record [.depthReached l.depth] })
  | level {e : Value} {scope : Scope} {s s' : Evaluator} {r : Except Error Value}
      (h : s.enter.depth ≤ l.depth) (hruns : Runs l (fun ev => evaluateOnce ev e scope) s.enter r s') :
      Runs l (fun ev => ev e scope) s r s'.leave
  | bind_ok {α β : Type} {F : Evaluate → Run α} {G : Evaluate → α → Run β} {s s' s'' : Evaluator}
      {a : α} {r : Except Error β} (hF : Runs l F s (.ok a) s')
      (hG : Runs l (fun ev => G ev a) s' r s'') : Runs l (fun ev => F ev >>= G ev) s r s''
  | bind_error {α β : Type} {F : Evaluate → Run α} {G : Evaluate → α → Run β} {s s' : Evaluator}
      {e : Error} (hF : Runs l F s (.error e) s') :
      Runs l (fun ev => F ev >>= G ev) s (.error e) s'

/-- The levels that are left under the limit. -/
def room (l : Limits) (s : Evaluator) : Nat := (l.depth - s.depth).toNat

theorem room_eq_zero_iff {l : Limits} {s : Evaluator} : s.room l = 0 ↔ l.depth < s.enter.depth := by
  simp only [room, enter]
  omega

theorem room_eq_succ {l : Limits} {s : Evaluator} (h : s.enter.depth ≤ l.depth) :
    s.room l = s.enter.room l + 1 := by
  simp only [room, enter] at h ⊢
  omega

/-- **A run ends as deep as it started**, with what evaluation comes to in the levels left. -/
theorem Runs.sound {l : Limits} {α : Type} {F : Evaluate → Run α} {s s' : Evaluator}
    {r : Except Error α} (h : Runs l F s r s') :
    s'.depth = s.depth ∧ F (evaluate (s.room l)) l s.progress = (r, s'.progress) := by
  induction h with
  | act x s => exact ⟨rfl, rfl⟩
  | tooDeep e scope h =>
    rw [room_eq_zero_iff.2 h]
    exact ⟨Int.add_sub_cancel _ _, rfl⟩
  | level h hruns ih =>
    obtain ⟨hdepth, hresult⟩ := ih
    rw [room_eq_succ h]
    refine ⟨?_, hresult⟩
    rw [leave, hdepth]
    exact Int.add_sub_cancel _ _
  | @bind_ok α β F G s s' s'' a r hF hG ihF ihG =>
    obtain ⟨hdepth, hresult⟩ := ihF
    obtain ⟨hdepth', hresult'⟩ := ihG
    have hroom : s'.room l = s.room l := by rw [room, room, hdepth]
    rw [hroom] at hresult'
    refine ⟨hdepth'.trans hdepth, ?_⟩
    change (F (evaluate (s.room l)) >>= G (evaluate (s.room l))) l s.progress = _
    rw [Run.bind_apply, hresult]
    exact hresult'
  | @bind_error α β F G s s' e hF ihF =>
    obtain ⟨hdepth, hresult⟩ := ihF
    refine ⟨hdepth, ?_⟩
    change (F (evaluate (s.room l)) >>= G (evaluate (s.room l))) l s.progress = _
    rw [Run.bind_apply, hresult]

/-- Programs run to an end at a depth at which calls do. -/
theorem exists_runs {l : Limits} {d : Int}
    (hcalls : ∀ e scope s, s.depth = d → ∃ r s', Runs l (fun ev => ev e scope) s r s') {α : Type}
    {F : Evaluate → Run α} (hF : Program F) :
    ∀ s : Evaluator, s.depth = d → ∃ r s', Runs l F s r s' := by
  induction hF with
  | act x => exact fun s _ => ⟨_, _, .act x s⟩
  | call e scope => exact hcalls e scope
  | bind hF hG ihF ihG =>
    intro s hs
    obtain ⟨r, s', hruns⟩ := ihF s hs
    cases r with
    | error e => exact ⟨_, _, .bind_error hruns⟩
    | ok a =>
      obtain ⟨r, s'', hruns'⟩ := ihG a s' (hruns.sound.1.trans hs)
      exact ⟨r, s'', .bind_ok hruns hruns'⟩

/-- Every call runs to an end. The induction is on the levels that are left. -/
theorem exists_call (l : Limits) (n : Nat) (e : Value) (scope : Scope) (s : Evaluator)
    (hn : s.room l = n) : ∃ r s', Runs l (fun ev => ev e scope) s r s' := by
  induction n generalizing e scope s with
  | zero => exact ⟨_, _, .tooDeep e scope (room_eq_zero_iff.1 hn)⟩
  | succ n ih =>
    have hlevel : s.enter.depth ≤ l.depth := by
      refine Int.not_lt.1 fun hdeep => ?_
      rw [room_eq_zero_iff.2 hdeep] at hn
      cases hn
    rw [room_eq_succ hlevel] at hn
    have hcalls (e : Value) (scope : Scope) (s' : Evaluator) (hs' : s'.depth = s.enter.depth) :
        ∃ r s'', Runs l (fun ev => ev e scope) s' r s'' := by
      refine ih e scope s' ?_
      rw [room, hs']
      exact Nat.succ.inj hn
    obtain ⟨r, s', hruns⟩ := exists_runs hcalls (Program.evaluateOnce scope e) s.enter rfl
    exact ⟨r, s'.leave, .level hlevel hruns⟩

/-- **What a call comes to**: the depth is as before, and the result and all else is what evaluation
in the levels left says. -/
theorem runs_call_iff {l : Limits} {e : Value} {scope : Scope} {s s' : Evaluator}
    {r : Except Error Value} :
    Runs l (fun ev => ev e scope) s r s' ↔
      s'.depth = s.depth ∧ evaluate (s.room l) e scope l s.progress = (r, s'.progress) := by
  constructor
  · exact Runs.sound
  · rintro ⟨hdepth, hresult⟩
    obtain ⟨r₁, s₁, hruns⟩ := exists_call l (s.room l) e scope s rfl
    obtain ⟨hdepth₁, hresult₁⟩ := hruns.sound
    obtain ⟨rfl, hprogress⟩ := Prod.mk.inj (hresult₁.symm.trans hresult)
    obtain rfl : s₁ = s' := by
      obtain ⟨d₁, p₁⟩ := s₁
      obtain ⟨d', p'⟩ := s'
      obtain rfl : p₁ = p' := hprogress
      obtain rfl : d₁ = d' := hdepth₁.trans hdepth.symm
      rfl
    exact hruns

/-- The evaluator after calls, whatever came of them. What goes on in between may print and make
closures, but counts no step of this evaluator, and how deep a text may nest that is read is a
setting of its own. -/
inductive Used (l : Limits) : Evaluator → Prop
  | fresh (p : Progress) (h : p.steps = 0) : Used l ⟨0, p⟩
  | call {s s' : Evaluator} {e : Value} {scope : Scope} {r : Except Error Value}
      {nesting : Except SettingError Int} (hs : Used l s)
      (hcall : Runs { l with nesting } (fun ev => ev e scope) s r s') : Used l s'
  | meanwhile {s : Evaluator} (hs : Used l s) (p : Progress) (h : p.steps = s.progress.steps) :
      Used l { s with progress := p }

/-- **Between calls the depth is back to zero.** -/
theorem Used.depth_eq {l : Limits} {s : Evaluator} (h : s.Used l) : s.depth = 0 := by
  induction h with
  | fresh p h => rfl
  | call hs hcall ih => exact hcall.sound.1.trans ih
  | meanwhile hs p h ih => exact ih

end Evaluator

/-- The limits with a budget that is less by `k`. -/
def Limits.lowered (l : Limits) (k : Nat) : Limits := { l with budget := l.budget.map (· - k) }

theorem Limits.raised_lowered (l : Limits) (k : Nat) : (l.lowered k).raised k = l := by
  obtain ⟨budget, depth, nesting⟩ := l
  cases budget with
  | none => rfl
  | some b => simp [lowered, raised]

namespace Evaluator

/-- An evaluator in its place that has counted no steps. -/
def renewed (s : Evaluator) : Evaluator := ⟨0, { s.progress with steps := 0 }⟩

/-- The call comes to this and to nothing else. -/
def Ends (l : Limits) (e : Value) (scope : Scope) (s : Evaluator) (r : Except Error Value)
    (s' : Evaluator) : Prop :=
  ∀ r₁ s₁, Runs l (fun ev => ev e scope) s r₁ s₁ ↔ r₁ = r ∧ s₁ = s'

/-- Between calls the evaluator does what evaluation as a whole does. -/
theorem ends_of_depth_eq {s : Evaluator} (h : s.depth = 0) (l : Limits) (e : Value)
    (scope : Scope) :
    Ends l e scope s (Run.evaluate e scope l s.progress).1
      ⟨0, (Run.evaluate e scope l s.progress).2⟩ := by
  intro r₁ s₁
  have hroom : s.room l = l.depth.toNat := by rw [room, h, Int.sub_zero]
  have hwhole : evaluate (s.room l) e scope l s.progress = Run.evaluate e scope l s.progress := by
    rw [hroom]
    rfl
  rw [runs_call_iff, hwhole, h]
  obtain ⟨d₁, p₁⟩ := s₁
  constructor
  · rintro ⟨rfl, hresult⟩
    rw [hresult]
    exact ⟨rfl, rfl⟩
  · rintro ⟨rfl, hs₁⟩
    obtain ⟨rfl, rfl⟩ := Evaluator.mk.inj hs₁
    exact ⟨rfl, rfl⟩

/-- The same error, but with the budget itself for a budget that is less by `k`. -/
inductive Reported (l : Limits) (k : Nat) : Error → Error → Prop
  | same {e : Error} (h : ∀ c, e ≠ .budgetExceeded c) : Reported l k e e
  | budget {b : Int} (h : l.budget = some b) :
      Reported l k (.budgetExceeded b) (.budgetExceeded (b - k))

/-- Errors that are equal but for a raised budget say which budget was exceeded, as both runs keep
count. -/
theorem reported_of_raised {l : Limits} {k : Nat} {p q : Progress}
    {x y : Except Error Value × Progress} (hx : Counted l p x) (hy : Counted (l.lowered k) q y)
    (h : Agree (Error.Raised (l.lowered k) k) Eq x.1 y.1) : Agree (Reported l k) Eq x.1 y.1 := by
  obtain ⟨x, p'⟩ := x
  obtain ⟨y, q'⟩ := y
  cases h with
  | ok h => exact .ok h
  | @error e e' h =>
    refine .error ?_
    rcases h with rfl | ⟨b', hb', rfl, rfl⟩
    · cases hx with
      | kept _ hne => exact .same fun c hc => hne c (congrArg _ hc)
      | @exceeded b _ hb _ =>
        cases hy with
        | kept _ hne => exact absurd rfl (hne b)
        | exceeded hb' _ =>
          -- the same budget on both sides, so it is not less on one of them
          have hsame : b - k = b := by simpa [Limits.lowered, hb] using hb'
          have hreported : Reported l k _ (.budgetExceeded (b - k)) := .budget hb
          rwa [hsame] at hreported
    · obtain ⟨b, hb, rfl⟩ := Option.map_eq_some_iff.1 hb'
      rw [Int.sub_add_cancel]
      exact .budget hb

/-- A run that starts with the budget exceeded counts at most the step that says so. -/
theorem counted_exceeded {l : Limits} {b : Int} (hb : l.budget = some b) {p : Progress}
    {x : Except Error Value × Progress} (hle : p ≤ x.2) (hx : Counted l p x) (hover : b < p.steps) :
    x.2.steps = p.steps ∧ (∀ c, x.1 ≠ .error (.budgetExceeded c)) ∨
      x.2.steps = p.steps + 1 ∧ x.1 = .error (.budgetExceeded b) := by
  have hmore := hle.steps
  cases hx with
  | kept hsteps hne =>
    refine .inl ⟨?_, hne⟩
    rcases hsteps with heq | hwithin
    · exact heq
    · have := hwithin b hb
      dsimp only at hmore
      omega
  | exceeded hb' hsteps =>
    obtain rfl := Option.some.inj (hb'.symm.trans hb)
    dsimp only at hmore
    exact .inr ⟨by dsimp only; omega, rfl⟩

/-- **An evaluator that is used again is like a fresh one.** Let `k` steps have been counted by
earlier calls, whatever came of these. The next call has one way to end, at depth zero and with no
fewer steps. A fresh evaluator with a budget that is less by `k` and the same depth limit ends with
the same value or the same error, save that the error for the budget names the one it has, and has
printed the same. The call counts what the fresh run counts. If `k` is more than the budget, it ends
without a step or is stopped at its first one. -/
theorem Used.call_eq_fresh {l : Limits} {s : Evaluator} (hs : s.Used l) (e : Value)
    (scope : Scope) :
    let k := s.progress.steps
    let used := Run.evaluate e scope l s.progress
    let fresh := Run.evaluate e scope (l.lowered k) s.renewed.progress
    Ends l e scope s used.1 ⟨0, used.2⟩ ∧
      Ends (l.lowered k) e scope s.renewed fresh.1 ⟨0, fresh.2⟩ ∧ k ≤ used.2.steps ∧
      Agree (Reported l k) Eq used.1 fresh.1 ∧ used.2.output = fresh.2.output ∧
      used.2.steps = k + fresh.2.steps ∧
      ∀ b, l.budget = some b → b < k →
        used.2.steps = k ∧ (∀ c, used.1 ≠ .error (.budgetExceeded c)) ∨
          used.2.steps = k + 1 ∧ used.1 = .error (.budgetExceeded b) := by
  intro k used fresh
  have hused : s.progress ≤ used.2 ∧ Counted l s.progress used :=
    evaluate_counts l.depth.toNat e scope l s.progress
  have hfresh : s.renewed.progress ≤ fresh.2 ∧ Counted (l.lowered k) s.renewed.progress fresh :=
    evaluate_counts l.depth.toNat e scope (l.lowered k) s.renewed.progress
  have hstart : s.progress.Ahead k s.renewed.progress := ⟨(Nat.zero_add k).symm, rfl, rfl⟩
  obtain ⟨hagree, hahead⟩ := evaluate_ahead hstart l.depth.toNat e scope (l.lowered k)
  rw [Limits.raised_lowered] at hagree hahead
  refine ⟨ends_of_depth_eq hs.depth_eq l e scope, ends_of_depth_eq rfl _ e scope, hused.1.steps,
    reported_of_raised hused.2 hfresh.2 hagree, hahead.output_eq, ?_, ?_⟩
  · rw [Nat.add_comm]
    exact hahead.steps
  · intro b hb hover
    exact counted_exceeded hb hused.1 hused.2 hover

/-- A call fails because of a name that is not bound, and has counted a step by then. The next one
takes three more steps, where the budget of three leaves two: it fails as it would with a budget of
two, but for the budget that it names. -/
theorem Used.call_eq_fresh_exceeded :
    let call (arg : Value) : Value := .list [.atom (Atom.bare "not"), arg]
    let first := call (.atom (Atom.bare "x"))
    let e := call (call (call (.atom (Atom.bare "1"))))
    let l : Limits := ⟨some 3, 5, .ok 0⟩
    let scope := Scope.standard 0
    let s : Evaluator := ⟨0, (Run.evaluate first scope l .start).2⟩
    let used := Run.evaluate e scope l s.progress
    let fresh := Run.evaluate e scope ⟨some 2, 5, .ok 0⟩ s.renewed.progress
    Runs l (fun ev => ev first scope) ⟨0, .start⟩ (.error (.unbound "x")) s ∧ s.Used l ∧
      s.progress.steps = 1 ∧ used.1 = .error (.budgetExceeded 3) ∧
      fresh.1 = .error (.budgetExceeded 2) ∧ Ends l e scope s used.1 ⟨0, used.2⟩ ∧
      used.2.output = fresh.2.output ∧ used.2.steps = 1 + fresh.2.steps := by
  intro call first e l scope s used fresh
  have hfirst : Runs l (fun ev => ev first scope) ⟨0, .start⟩ (.error (.unbound "x")) s :=
    runs_call_iff.2 ⟨rfl, rfl⟩
  have hused : s.Used l := .call (.fresh .start rfl) hfirst
  obtain ⟨hends, -, -, -, houtput, hsteps, -⟩ := hused.call_eq_fresh e scope
  exact ⟨hfirst, hused, rfl, rfl, rfl, hends, houtput, hsteps⟩

end Evaluator

end MiniLisp
