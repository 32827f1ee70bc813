import MiniLisp.Proofs.Datum.Faithful
import MiniLisp.Proofs.Evaluation.Depth
import MiniLisp.Proofs.Evaluation.Faults
import MiniLisp.Proofs.Evaluation.Headstart

/-!
# Reading and evaluating inside the language

The document `eval (read "...")`, with a text escaped between the quotes, reads the text and
evaluates what it says. Whatever the text is, the document is read as it was meant
(`Source.parse_embedded`), and then **does what the text does by itself** (`Session.eval_embedded`),
up to two differences. The calls of `eval` and `read` are steps of their own, and what the text says
is evaluated one level further in.

* `evaluate_further`: neither matters for how an evaluation ends, unless it runs out of depth.
* `depthExceeded_iff`: it runs out of depth just where it would by itself with one level less.
-/

namespace MiniLisp

/-! ## The document -/

/-- The document that reads a text and evaluates what the text says. -/
def Text.embedded (t : Text) : Text := "eval (read \"" ++ Text.escape t true ++ "\")"

/-- What that document says. -/
def Datum.embedded (t : Text) : Datum :=
  .list [.atom (Atom.bare "eval"), .list [.atom (Atom.bare "read"), .atom (Atom.quoted t)]]

theorem Datum.serializeDocument_embedded (t : Text) :
    (Datum.embedded t).serializeDocument = t.embedded := by
  have heval : Atom.serialize (Atom.bare "eval") = "eval" := rfl
  have hread : Atom.serialize (Atom.bare "read") = "read" := rfl
  have hquoted : Atom.serialize (Atom.quoted t) = t.inQuotes := rfl
  simp only [embedded, serializeDocument, List.map_cons, List.map_nil, serialize_list,
    serialize_atom, heval, hread, hquoted]
  simp [Text.join, List.intercalate, Text.inParens, Text.inQuotes, Text.embedded, Text.ofString]

/-- **The document is read as it was meant**, whatever the text is. -/
theorem Source.parse_embedded (t : Text) {n : Nat} (hn : 1 ≤ n) :
    ((Source.text t.embedded).parse n).result = .ok (Datum.embedded t) := by
  have hatom : ∀ a, Datum.embedded t ≠ .atom a := fun _ h => nomatch h
  have hwf : Tree.All Atom.WellFormed (fun _ => True) (Datum.embedded t) := by
    have heval : (Atom.bare "eval").WellFormed := Atom.wellFormed_bare (by decide)
    have hread : (Atom.bare "read").WellFormed := Atom.wellFormed_bare (by decide)
    simp only [Datum.embedded, Tree.all_list, Tree.all_atom, List.forall_mem_cons]
    exact ⟨heval, ⟨hread, Atom.wellFormed_quoted t, by simp⟩, by simp⟩
  have hnesting : (Datum.embedded t).nesting = 2 := rfl
  have hbody : Grammar.Body n (Datum.embedded t).documentLexemes (Datum.embedded t) := by
    have hderived := Datum.derived_document hatom (d := n) (by omega)
    rwa [Datum.normal_eq hwf] at hderived
  have hrenders : Renders (Datum.embedded t).documentLexemes t.embedded := by
    rw [← Datum.serializeDocument_embedded]
    exact (Datum.writes_document (Datum.embedded t)).renders
  have hsig : (Source.text t.embedded).lex.significant = (Datum.embedded t).documentLexemes :=
    hrenders.significant hbody.ne_comment
  refine (Source.parse_ok_iff _ _ _).2 ⟨hrenders.lex.1, ?_⟩
  rw [hsig, Int.toNat_natCast]
  exact hbody

/-! ## Its evaluation -/

section Evaluation

variable {scope : Scope} {copy : Nat} (t : Text)

/-- The call of `read` takes a step and reads the text. -/
theorem evaluate_read (hread : scope.lookup? "read" = some (.leaf (.builtin copy .read)))
    (n : Nat) :
    evaluate (n + 2) (.list [.atom (Atom.bare "read"), .atom (Atom.quoted t)]) scope =
      (do Run.step; Run.read t) := by
  have hhead : evaluate (n + 1) (.atom (Atom.bare "read")) scope =
      pure (.leaf (.builtin copy .read)) := by
    have hsymbol : (Atom.bare "read").isSymbol = true := by decide
    rw [evaluate, evaluateOnce, if_pos hsymbol]
    simp only [Atom.bare, hread]
  have harg : evaluate (n + 1) (.atom (Atom.quoted t)) scope = pure (.atom (Atom.quoted t)) := rfl
  have hcall : evaluate (n + 2) (.list [.atom (Atom.bare "read"), .atom (Atom.quoted t)]) scope =
      (do
        Run.step
        evaluateApplication (evaluate (n + 1)) scope (.atom (Atom.bare "read"))
          [.atom (Atom.quoted t)]) := rfl
  rw [hcall, evaluateApplication, hhead, pure_bind]
  simp only [evaluateAll, List.mapM_cons, List.mapM_nil, harg, pure_bind]
  rfl

/-- With three levels of depth, the text is read and what it says is evaluated one level further in,
after two steps. -/
theorem evaluate_embedded (hread : scope.lookup? "read" = some (.leaf (.builtin copy .read)))
    (n : Nat) :
    evaluate (n + 3) (Datum.embedded t) scope =
      (do
        Run.step
        Run.note (.specialForm SpecialForm.eval.name)
        Run.step
        evaluate (n + 2) (← Run.read t) scope) := by
  have hform : evaluate (n + 3) (Datum.embedded t) scope =
      (do
        Run.step
        Run.note (.specialForm SpecialForm.eval.name)
        evaluate (n + 2) (← evaluate (n + 2)
          (.list [.atom (Atom.bare "read"), .atom (Atom.quoted t)]) scope) scope) := rfl
  rw [hform, evaluate_read t hread, bind_assoc]

/-- With less depth there is no getting that far. -/
theorem evaluate_embedded_tooDeep {n : Nat} (hn : n < 3) {l : Limits} (hl : l.budget = none)
    (p : Progress) :
    (evaluate n (Datum.embedded t) scope l p).1 = .error (.depthExceeded l.depth) := by
  obtain ⟨budget, depth, nesting⟩ := l
  obtain rfl : budget = none := hl
  match n with
  | 0 => rfl
  | 1 => rfl
  | 2 => rfl

/-- What comes of the document, given what comes of reading the text. -/
theorem evaluate_embedded_apply
    (hread : scope.lookup? "read" = some (.leaf (.builtin copy .read))) (n : Nat) {l : Limits}
    (hl : l.budget = none) (p : Progress) :
    ∃ p', Progress.Ahead 2 p' p ∧ evaluate (n + 3) (Datum.embedded t) scope l p =
      match ((Source.text t).read l.nesting).1 with
      | .error e => (.error e, p')
      | .ok d => evaluate (n + 2) d scope l p' := by
  have hstep (p : Progress) : Run.step l p = (.ok (), p.counted) := by
    simp only [Run.step, hl]
    rfl
  refine ⟨((p.counted.record [.specialForm SpecialForm.eval.name]).counted).record
    ((Source.text t).read l.nesting).2, ⟨rfl, rfl, rfl⟩, ?_⟩
  have hnote (e : Event) (p : Progress) : Run.note e l p = (.ok (), p.record [e]) := rfl
  simp only [evaluate_embedded t hread n, Run.bind_apply, hstep, hnote, Run.read_apply]
  cases ((Source.text t).read l.nesting).1 <;> rfl

end Evaluation

/-! ## One level further in -/

section Depth

variable (n : Nat) (e : Value) (scope : Scope)

/-- One level less leaves the evaluation as it is, or cuts it off. -/
theorem evaluate_shallower (l : Limits) (p : Progress) :
    Shallower l.depth Correspondence.equality.value (evaluate n e scope l p)
      (evaluate (n + 1) e scope l p) := by
  have hbase : (Comparison.upToDepth l.depth l.depth).Evaluators (fun _ _ => Run.tooDeep)
      (evaluate 1) := fun _ e' _ τ _ _ => .tooDeep (evaluate_onward 1 e' τ)
  exact (Comparison.evaluate_self hbase n e scope l p).2

/-- **One level further in and some steps later, the same happens**, unless the depth runs out. -/
theorem evaluate_further {l : Limits} (hl : l.budget = none) {k : Nat} {p q : Progress}
    (h : p.Ahead k q) (hdepth : ∀ m, (evaluate n e scope l p).1 ≠ .error (.depthExceeded m)) :
    (evaluate n e scope l p).1 = (evaluate (n + 1) e scope l q).1 ∧
      (evaluate n e scope l p).2.Ahead k (evaluate (n + 1) e scope l q).2 := by
  have hahead := evaluate_ahead_free hl h (n + 1) e scope
  have hshallower := evaluate_shallower n e scope l p
  generalize evaluate n e scope l p = x, evaluate (n + 1) e scope l p = z
    at hdepth hahead hshallower
  cases hshallower with
  | same _ hagree =>
    rw [Correspondence.eq_of_agree hagree]
    exact hahead
  | cut _ => exact absurd rfl (hdepth l.depth)

/-- Whether the depth runs out depends on how much is left, and not on the limit that is named. -/
theorem depthExceeded_of_limit {l : Limits} {p : Progress} {d d' : Int}
    (h : ∃ m, (evaluate n e scope (l.downTo d) p).1 = .error (.depthExceeded m)) :
    ∃ m, (evaluate n e scope (l.downTo d') p).1 = .error (.depthExceeded m) := by
  have hbase : (Comparison.upToDepth d' d).Evaluators (fun _ _ => Run.tooDeep) (evaluate 0) :=
    fun _ e' _ τ _ _ => .tooDeep (evaluate_onward 0 e' τ)
  have hshallower := (Comparison.evaluate_self hbase n e scope l p).2
  rw [Nat.add_zero] at hshallower
  generalize evaluate n e scope (l.downTo d) p = y, evaluate n e scope (l.downTo d') p = x
    at h hshallower
  cases hshallower with
  | same hne hagree =>
    obtain ⟨m, hm⟩ := h
    rw [← Correspondence.eq_of_agree hagree] at hm
    exact absurd hm (hne m)
  | cut _ => exact ⟨d', rfl⟩

/-- The same holds from an earlier count of steps. -/
theorem depthExceeded_iff {l : Limits} (hl : l.budget = none) {k : Nat} {p q : Progress}
    (h : p.Ahead k q) (d : Int) :
    (∃ m, (evaluate n e scope l p).1 = .error (.depthExceeded m)) ↔
      ∃ m, (evaluate n e scope (l.downTo d) q).1 = .error (.depthExceeded m) := by
  rw [(evaluate_ahead_free hl h n e scope).1]
  exact ⟨depthExceeded_of_limit n e scope (d := l.depth), depthExceeded_of_limit n e scope⟩

end Depth

/-! ## Sessions -/

namespace Session

/-- The progress of a session when it starts to evaluate a document. -/
def begun (s : Session) (source : Source) : Progress :=
  { s.progress.record (source.parse 200).events with steps := 0 }

/-- Without settings, a document that cannot be read is not evaluated. -/
theorem eval_of_parse_error (s : Session) {source : Source} {e : ReadError}
    (hparse : (source.parse 200).result = .error e) :
    ((eval .unset source).run s).1 = .error (.read e) ∧
      ((eval .unset source).run s).2.progress.output = s.progress.output := by
  simp only [eval, read, Source.read_unset_of_error hparse]
  exact ⟨rfl, rfl⟩

section Evaluated

variable {s : Session} (hbudget : s.budget = none) {depth : Int}
  (hdepth : s.depth.getD 150 = depth) {room : Nat} (hroom : depth.toNat = room)
include hbudget hdepth hroom

/-- Without settings, a document that can be read is evaluated with the depth of the session. -/
theorem eval_of_parse {source : Source} {d : Datum} (hparse : (source.parse 200).result = .ok d) :
    ((eval .unset source).run s).1 =
        (MiniLisp.evaluate room d s.scope ⟨none, depth, .ok 200⟩ (s.begun source)).1 ∧
      ((eval .unset source).run s).2.progress =
        (MiniLisp.evaluate room d s.scope ⟨none, depth, .ok 200⟩ (s.begun source)).2 := by
  let s' : Session := { s with progress := s.progress.record (source.parse 200).events }
  have hrun : (eval .unset source).run s = (Session.evaluate .unset d).run s' := by
    simp only [eval, read, Source.read_unset_of_ok hparse]
    rfl
  have hlimits : Variables.unset.limits s'.budget s'.depth = .ok ⟨none, depth, .ok 200⟩ := by
    rw [limits_unset, hbudget, hdepth]
  subst hroom
  rw [hrun, evaluate_of_limits s' hlimits]
  exact ⟨rfl, rfl⟩

end Evaluated

section Embedded

variable {s : Session} (hbudget : s.budget = none) (t : Text)
include hbudget

/-- With fewer than three levels the text is not even read. -/
theorem eval_embedded_tooDeep (hfew : s.depth.getD 150 < 3) :
    ((eval .unset (.text t.embedded)).run s).1 = .error (.depthExceeded (s.depth.getD 150)) := by
  have hparsed := Source.parse_embedded t (n := 200) (by decide)
  rw [(eval_of_parse hbudget rfl rfl hparsed).1]
  exact evaluate_embedded_tooDeep t (by omega) rfl _

variable {n : Nat} (hdepth : s.depth.getD 150 = n + 3) {copy : Nat}
  (hread : s.scope.lookup? "read" = some (.leaf (.builtin copy .read)))
include hdepth hread

/-- With more, the text is read, and what it says is evaluated with one level less and two steps
later. -/
theorem eval_embedded_deep :
    ∃ (p : Progress) (x : Except Error Value × Progress), p.Ahead 2 (s.begun (.text t)) ∧
      ((eval .unset (.text t.embedded)).run s).1 = x.1 ∧
      ((eval .unset (.text t.embedded)).run s).2.progress = x.2 ∧
      x = match ((Source.text t).parse 200).result with
        | .error e => (.error (.read e), p)
        | .ok d => MiniLisp.evaluate (n + 2) d s.scope ⟨none, n + 3, .ok 200⟩ p := by
  have hparsed := Source.parse_embedded t (n := 200) (by decide)
  have hroom : ((n : Int) + 3).toNat = n + 3 := by omega
  obtain ⟨hresult, hprogress⟩ := eval_of_parse hbudget hdepth hroom hparsed
  obtain ⟨p, hp, happly⟩ := evaluate_embedded_apply t hread n (l := ⟨none, n + 3, .ok 200⟩) rfl
    (s.begun (.text t.embedded))
  refine ⟨p, _, ⟨hp.steps, hp.printed, hp.closures⟩, hresult, hprogress, ?_⟩
  rw [happly]
  simp only [Source.read]
  cases ((Source.text t).parse 200).result <;> rfl

end Embedded

/-- **Reading and evaluating inside the language agrees with doing so from outside.** Without
settings and without a step budget, and where `read` is the builtin, the document that reads a text
and evaluates what it says gives the same value as the text itself, or fails by the same error, with
the same position if the text cannot be read. The same is printed, and two more steps are counted if
the text can be read. The one exception is that the document runs out of depth: it does so exactly
if there are fewer than three levels, or if the text itself would with one level less. -/
theorem eval_embedded (t : Text) (s : Session) (hbudget : s.budget = none) {copy : Nat}
    (hread : s.scope.lookup? "read" = some (.leaf (.builtin copy .read))) :
    let depth := s.depth.getD 150
    let plain := (eval .unset (.text t)).run s
    let shallower := (eval .unset (.text t)).run { s with depth := some (depth - 1) }
    let embedded := (eval .unset (.text t.embedded)).run s
    ((∃ n, embedded.1 = .error (.depthExceeded n)) ↔
      depth < 3 ∨ ∃ n, shallower.1 = .error (.depthExceeded n)) ∧
    ((∀ n, embedded.1 ≠ .error (.depthExceeded n)) →
      embedded.1 = plain.1 ∧ embedded.2.progress.output = plain.2.progress.output ∧
        ((∃ d, ((Source.text t).parse 200).result = .ok d) →
          embedded.2.progress.steps = plain.2.progress.steps + 2)) := by
  intro depth plain shallower embedded
  by_cases hfew : depth < 3
  · have hcut : embedded.1 = .error (.depthExceeded depth) := eval_embedded_tooDeep hbudget t hfew
    exact ⟨⟨fun _ => .inl hfew, fun _ => ⟨depth, hcut⟩⟩, fun h => absurd hcut (h depth)⟩
  obtain ⟨n, hn⟩ : ∃ n : Nat, depth = n + 3 := ⟨depth.toNat - 3, by omega⟩
  obtain ⟨p, x, hp, hresult, hprogress, hx⟩ := eval_embedded_deep hbudget t hn hread
  have hresult : embedded.1 = x.1 := hresult
  have hprogress : embedded.2.progress = x.2 := hprogress
  rw [hresult, hprogress]
  cases hparse : ((Source.text t).parse 200).result with
  | error e =>
    obtain ⟨hplain, houtput⟩ : plain.1 = _ ∧ plain.2.progress.output = _ :=
      eval_of_parse_error s hparse
    have hshallower : shallower.1 = _ := (eval_of_parse_error _ hparse).1
    rw [hparse] at hx
    rw [hx, hplain, houtput, hshallower]
    refine ⟨by simp [hfew], fun _ => ⟨rfl, hp.output_eq, ?_⟩⟩
    rintro ⟨d, hd⟩
    cases hd
  | ok d =>
    have hroom : ((n : Int) + 3).toNat = n + 2 + 1 := by omega
    have hroom' : (depth - 1).toNat = n + 2 := by omega
    obtain ⟨hplain, hplain'⟩ : plain.1 = _ ∧ plain.2.progress = _ :=
      eval_of_parse hbudget hn hroom hparse
    have hshallower : shallower.1 = _ :=
      (eval_of_parse (s := { s with depth := some (depth - 1) }) hbudget rfl hroom' hparse).1
    rw [hparse] at hx
    rw [hx, hplain, hplain', hshallower]
    have hiff := depthExceeded_iff (n + 2) d s.scope (l := ⟨none, n + 3, .ok 200⟩) rfl hp
      (depth - 1)
    refine ⟨⟨fun h => .inr (hiff.1 h), fun h => hiff.2 (h.resolve_left hfew)⟩, fun hne => ?_⟩
    obtain ⟨hsame, hends⟩ := evaluate_further (n + 2) d s.scope rfl hp hne
    exact ⟨hsame, hends.output_eq, fun _ => hends.steps⟩

/-- A text with a quote and a backslash in it, one that cannot be read, and one that takes all of
the three levels that there are: only the last one is too much inside a document. -/
theorem eval_embedded_three_levels :
    let s : Session := ⟨Scope.standard 0, none, some 3, .start⟩
    let inside (t : Text) := (eval .unset (.text t.embedded)).run s
    let outside (t : Text) := (eval .unset (.text t)).run s
    (inside "not \"\\\"\"").1 = .ok (Value.ofBool false) ∧
      (inside "not \"\\\"\"").2.progress.steps = (outside "not \"\\\"\"").2.progress.steps + 2 ∧
      (inside "a\n )").1 = .error (.read ⟨.unexpectedToken ")", ⟨3, 2, 2⟩⟩) ∧
      (outside "not (not a)").1 = .error (.unbound "a") ∧
      ∃ n, (inside "not (not a)").1 = .error (.depthExceeded n) := by
  intro s inside outside
  have hread : s.scope.lookup? "read" = some (.leaf (.builtin 0 .read)) := rfl
  have hquote : ((Source.text "not \"\\\"\"").parse 200).result =
      .ok (.list [.atom ⟨"not", .bare⟩, .atom ⟨"\"", .quoted⟩]) := by cbv
  have hstray : ((Source.text "a\n )").parse 200).result =
      .error ⟨.unexpectedToken ")", ⟨3, 2, 2⟩⟩ := by cbv
  have hnested : ((Source.text "not (not a)").parse 200).result =
      .ok (.list [.atom ⟨"not", .bare⟩, .list [.atom ⟨"not", .bare⟩, .atom ⟨"a", .bare⟩]]) := by cbv
  let s' : Session := { s with depth := some 2 }
  -- two levels are enough for the first two texts, so three are for their documents
  have hends {t : Text} {r : Except Error Value} (hr : ((eval .unset (.text t)).run s').1 = r)
      (hne : ∀ n, r ≠ .error (.depthExceeded n)) :
      ∀ n, (inside t).1 ≠ .error (.depthExceeded n) := by
    intro n hn
    rcases (eval_embedded t s rfl hread).1.1 ⟨n, hn⟩ with hfew | ⟨m, hm⟩
    · exact absurd hfew (by decide)
    · exact hne m (hr.symm.trans hm)
  have hquote' : ((eval .unset (.text "not \"\\\"\"")).run s').1 = .ok (Value.ofBool false) :=
    (eval_of_parse rfl rfl rfl hquote).1
  have hstray' := (eval_of_parse_error s' hstray).1
  obtain ⟨hvalue, -, hsteps⟩ := (eval_embedded "not \"\\\"\"" s rfl hread).2
    (hends hquote' (by simp))
  obtain ⟨herror, -, -⟩ := (eval_embedded "a\n )" s rfl hread).2 (hends hstray' (by simp))
  refine ⟨?_, hsteps ⟨_, hquote⟩, ?_, ?_, ?_⟩
  · exact hvalue.trans (eval_of_parse rfl rfl rfl hquote).1
  · exact herror.trans (eval_of_parse_error s hstray).1
  · exact (eval_of_parse rfl rfl rfl hnested).1
  · refine (eval_embedded "not (not a)" s rfl hread).1.2 (.inr ⟨2, ?_⟩)
    exact (eval_of_parse (s := s') rfl rfl rfl hnested).1

end Session

end MiniLisp
