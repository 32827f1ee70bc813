import MiniLisp.Proofs.Session.History

/-!
# The scope of a session is its history

**The scope of a session is the one it started with and a frame with a single binding for every
binding that succeeded since, in order** (`Session.scope_history`). Reading and evaluating bind
nothing, a name that is none is not bound, and definitions that cannot be read or are no map bind
nothing either.

The entries of a map of definitions are bound one after the other, and the value of each is evaluated
under limits of its own in the scope of the bindings before it (`Session.Defines`). The first entry
that fails ends this with its error (`Session.Undefinable`), and what has been bound by then stays.
`Session.Binds` says for every request what it binds, given how it came out, and `Session.History`
puts that together for all requests of a session. Every session has a history, and every history of
it gives its scope.
-/

namespace MiniLisp

/-- The environment after bindings that are put in frames of their own, one after the other. -/
def Environment.extendEach {β : Type} (env : Environment β) (bs : Bindings β) : Environment β :=
  bs.foldl (fun env b => env.extend [b]) env

theorem Environment.extendEach_append {β : Type} (env : Environment β) (bs cs : Bindings β) :
    env.extendEach (bs ++ cs) = (env.extendEach bs).extendEach cs := List.foldl_append

namespace Session

/-- Something that is asked of a session, where a name to bind may be given as a value. -/
inductive Request
  | action (a : Action)
  | bindNamed (name value : Value)

def Request.run (vars : Variables) : Request → SessionStep (Option Value)
  | .action a => a.run vars
  | .bindNamed name value => do
    Session.bindNamed name value
    return none

/-- The session after requests, each of them made under settings of its own. -/
def after (s : Session) (requests : List (Variables × Request)) : Session :=
  requests.foldl (fun s r => (r.2.run r.1 s).2) s

/-! ## What requests bind -/

/-- Entries whose values are evaluated and bound one after the other: each under limits of its own,
with its steps counted anew, in the scope of the bindings before it. -/
inductive Defines (vars : Variables) :
    Session → List (Datum × Datum) → Bindings Value → Session → Prop
  | nil (s : Session) : Defines vars s [] [] s
  | cons {s s' : Session} {key e : Datum} {rest : List (Datum × Datum)} {name : Text} {v : Value}
      {limits : Limits} {p : Progress} {bs : Bindings Value}
      (hname : SpecialForm.symbol? key = some name)
      (hlimits : vars.limits s.budget s.depth = .ok limits)
      (hvalue : Run.evaluate e s.scope limits { s.progress with steps := 0 } = (.ok v, p))
      (hrest : Defines vars { s with scope := s.scope.extend [(name, v)], progress := p } rest bs s') :
      Defines vars s ((key, e) :: rest) ((name, v) :: bs) s'

/-- An entry that cannot be bound, with the error for it: its key is no symbol, the settings cannot
be used, or the evaluation of its value fails. -/
inductive Undefinable (vars : Variables) (s : Session) : Datum × Datum → Error → Prop
  | key {key e : Datum} (hname : SpecialForm.symbol? key = none) :
      Undefinable vars s (key, e) (.mismatch (.binder "define" (Value.inspect key)))
  | limits {key e : Datum} {name : Text} {err : SettingError}
      (hname : SpecialForm.symbol? key = some name)
      (hlimits : vars.limits s.budget s.depth = .error err) :
      Undefinable vars s (key, e) (.setting err)
  | value {key e : Datum} {name : Text} {limits : Limits} {err : Error}
      (hname : SpecialForm.symbol? key = some name)
      (hlimits : vars.limits s.budget s.depth = .ok limits)
      (hvalue : (Run.evaluate e s.scope limits { s.progress with steps := 0 }).1 = .error err) :
      Undefinable vars s (key, e) err

/-- How binding all entries comes out, and what it binds: all of them, or those before the first one
that cannot be bound. -/
inductive BindsEntries (vars : Variables) (s : Session) (entries : List (Datum × Datum)) :
    Except Error Unit → Bindings Value → Prop
  | all {bs : Bindings Value} {s' : Session} (h : Defines vars s entries bs s') :
      BindsEntries vars s entries (.ok ()) bs
  | first {done left : List (Datum × Datum)} {entry : Datum × Datum} {bs : Bindings Value}
      {s' : Session} {err : Error} (hentries : entries = done ++ entry :: left)
      (hdone : Defines vars s done bs s') (hfails : Undefinable vars s' entry err) :
      BindsEntries vars s entries (.error err) bs

/-- The session when a document has been read in it. -/
def afterRead (vars : Variables) (s : Session) (source : Source) : Session :=
  { s with progress := s.progress.record (source.read vars.maxNesting).2 }

/-- What a request binds that came out with this result. -/
inductive Binds (vars : Variables) (s : Session) :
    Request → Except Error (Option Value) → Bindings Value → Prop
  | read (source : Source) (result : Except Error (Option Value)) :
      Binds vars s (.action (.read source)) result []
  | eval (source : Source) (result : Except Error (Option Value)) :
      Binds vars s (.action (.eval source)) result []
  | evaluate (e : Value) (result : Except Error (Option Value)) :
      Binds vars s (.action (.evaluate e)) result []
  | load (source : Source) (result : Except Error (Option Value)) :
      Binds vars s (.action (.load source)) result []
  | bind (name : Text) (value : Value) :
      Binds vars s (.action (.bind name value)) (.ok none) [(name, value)]
  | bindNamed {name : Value} {key : BindingKey} (value : Value) (h : name.bindingKey = .ok key) :
      Binds vars s (.bindNamed name value) (.ok none) [(key.name, value)]
  | nameless {name : Value} {err : Error} (value : Value) (h : name.bindingKey = .error err) :
      Binds vars s (.bindNamed name value) (.error err) []
  | unread {source : Source} {err : Error} (h : (source.read vars.maxNesting).1 = .error err) :
      Binds vars s (.action (.define source)) (.error err) []
  | notMap {source : Source} {d : Datum} (h : (source.read vars.maxNesting).1 = .ok d)
      (hmap : ∀ key value rest, d ≠ .map key value rest) :
      Binds vars s (.action (.define source)) (.error (.mismatch .definitions)) []
  | define {source : Source} {key value : Datum} {rest : List (Datum × Datum)}
      {result : Except Error Unit} {bs : Bindings Value}
      (h : (source.read vars.maxNesting).1 = .ok (.map key value rest))
      (hentries : BindsEntries vars (afterRead vars s source) ((key, value) :: rest) result bs) :
      Binds vars s (.action (.define source)) (result.map fun _ => none) bs

/-- The bindings that requests make, in order. -/
inductive History : Session → List (Variables × Request) → Bindings Value → Prop
  | nil (s : Session) : History s [] []
  | cons {s : Session} {vars : Variables} {request : Request} {bs bs' : Bindings Value}
      {requests : List (Variables × Request)}
      (hbinds : Binds vars s request (request.run vars s).1 bs)
      (hrest : History (request.run vars s).2 requests bs') :
      History s ((vars, request) :: requests) (bs ++ bs')

/-! ## Steps that bind nothing -/

theorem absorb_apply (outcome : Source.Outcome) (s : Session) :
    absorb outcome s = (outcome.1, { s with progress := s.progress.record outcome.2 }) := by
  obtain ⟨_ | _, _⟩ := outcome <;> rfl

section KeepsScope

variable {α β : Type}

/-- A step that hands nothing back. -/
theorem none_apply (x : SessionStep Unit) (s : Session) :
    (do x; return (none : Option Value) : SessionStep (Option Value)) s =
      ((x s).1.map fun _ => none, (x s).2) := by
  rw [SessionStep.bind_apply]
  rcases x s with ⟨_ | _, _⟩ <;> rfl

/-- Whatever comes of it, the step leaves the scope as it was. -/
def KeepsScope (x : SessionStep α) : Prop := ∀ s, (x s).2.scope = s.scope

theorem KeepsScope.bind {x : SessionStep α} {f : α → SessionStep β} (hx : KeepsScope x)
    (hf : ∀ a, KeepsScope (f a)) : KeepsScope (x >>= f) := by
  intro s
  rw [SessionStep.bind_apply]
  have hscope := hx s
  rcases hxs : x s with ⟨e | a, s'⟩
  · rw [hxs] at hscope
    exact hscope
  · rw [hxs] at hscope
    exact (hf a s').trans hscope

theorem KeepsScope.some {x : SessionStep Value} (hx : KeepsScope x) :
    KeepsScope (do return some (← x)) := hx.bind fun _ _ => rfl

theorem keepsScope_absorb (outcome : Source.Outcome) : KeepsScope (absorb outcome) := by
  intro s
  rw [absorb_apply]

variable (vars : Variables)

theorem keepsScope_evaluate (e : Value) : KeepsScope (evaluate vars e) := by
  intro s
  rw [evaluate_apply]
  cases vars.limits s.budget s.depth <;> rfl

/-- A document is read, from wherever, and evaluated. -/
theorem keepsScope_document (outcome : Source.Outcome) :
    KeepsScope (do evaluate vars (← absorb outcome)) :=
  (keepsScope_absorb outcome).bind fun d => keepsScope_evaluate vars (Tree.ofDatum d)

end KeepsScope

/-! ## Definitions -/

section Define

variable {vars : Variables} {s s' : Session}

/-- The first entry is bound if its key is a symbol and its value can be evaluated. -/
theorem bindAll_cons {key e : Datum} {rest : List (Datum × Datum)} {name : Text} {v : Value}
    {limits : Limits} {p : Progress} (hname : SpecialForm.symbol? key = some name)
    (hlimits : vars.limits s.budget s.depth = .ok limits)
    (hvalue : Run.evaluate e s.scope limits { s.progress with steps := 0 } = (.ok v, p)) :
    bindAll vars ((key, e) :: rest) s =
      bindAll vars rest { s with scope := s.scope.extend [(name, v)], progress := p } := by
  rw [bindAll, hname]
  dsimp only
  rw [SessionStep.bind_apply, evaluate_apply, hlimits]
  dsimp only
  rw [hvalue]
  rfl

/-- Entries that can be bound are, and then it goes on with the others. -/
theorem Defines.bindAll_append {done : List (Datum × Datum)} {bs : Bindings Value}
    (h : Defines vars s done bs s') (rest : List (Datum × Datum)) :
    bindAll vars (done ++ rest) s = bindAll vars rest s' ∧
      s'.scope = s.scope.extendEach bs := by
  induction h with
  | nil s => exact ⟨rfl, rfl⟩
  | cons hname hlimits hvalue _ ih => exact ⟨(bindAll_cons hname hlimits hvalue).trans ih.1, ih.2⟩

/-- An entry that cannot be bound ends it and binds nothing. -/
theorem Undefinable.bindAll_cons {entry : Datum × Datum} {err : Error}
    (h : Undefinable vars s entry err) (left : List (Datum × Datum)) :
    (bindAll vars (entry :: left) s).1 = .error err ∧
      (bindAll vars (entry :: left) s).2.scope = s.scope := by
  cases h with
  | key hname =>
    rw [bindAll, hname]
    exact ⟨rfl, rfl⟩
  | limits hname hlimits =>
    rw [bindAll, hname]
    dsimp only
    rw [SessionStep.bind_apply, evaluate_apply, hlimits]
    exact ⟨rfl, rfl⟩
  | @value key e name limits err hname hlimits hvalue =>
    rw [bindAll, hname]
    dsimp only
    rw [SessionStep.bind_apply, evaluate_apply, hlimits]
    dsimp only
    rw [hvalue]
    exact ⟨rfl, rfl⟩

variable {entries : List (Datum × Datum)} {result : Except Error Unit} {bs : Bindings Value}

/-- What the entries of a map bind is in the scope after them. -/
theorem BindsEntries.sound (h : BindsEntries vars s entries result bs) :
    (bindAll vars entries s).1 = result ∧
      (bindAll vars entries s).2.scope = s.scope.extendEach bs := by
  cases h with
  | all h =>
    obtain ⟨hrun, hscope⟩ := h.bindAll_append []
    rw [List.append_nil] at hrun
    rw [hrun]
    exact ⟨rfl, hscope⟩
  | first hentries hdone hfails =>
    obtain ⟨hrun, hscope⟩ := hdone.bindAll_append (_ :: _)
    obtain ⟨herror, hkept⟩ := hfails.bindAll_cons _
    rw [hentries, hrun]
    exact ⟨herror, hkept.trans hscope⟩

/-- **The entries of a map are bound in order**, up to the first one that fails. -/
theorem exists_bindsEntries (vars : Variables) (entries : List (Datum × Datum)) (s : Session) :
    ∃ result bs, BindsEntries vars s entries result bs := by
  induction entries generalizing s with
  | nil => exact ⟨_, _, .all (.nil s)⟩
  | cons entry rest ih =>
    obtain ⟨key, e⟩ := entry
    cases hname : SpecialForm.symbol? key with
    | none => exact ⟨_, _, .first rfl (.nil s) (.key hname)⟩
    | some name =>
      cases hlimits : vars.limits s.budget s.depth with
      | error err => exact ⟨_, _, .first rfl (.nil s) (.limits hname hlimits)⟩
      | ok limits =>
        rcases hvalue : Run.evaluate e s.scope limits { s.progress with steps := 0 } with
          ⟨err | v, p⟩
        · exact ⟨_, _, .first rfl (.nil s) (.value hname hlimits (congrArg Prod.fst hvalue))⟩
        · obtain ⟨result, bs, hrest⟩ := ih
            { s with scope := s.scope.extend [(name, v)], progress := p }
          refine ⟨result, (name, v) :: bs, ?_⟩
          cases hrest with
          | all h => exact .all (.cons hname hlimits hvalue h)
          | first hentries hdone hfails =>
            exact .first (congrArg _ hentries) (.cons hname hlimits hvalue hdone) hfails

end Define

/-! ## Sessions -/

/-- What defining comes to, by what there is to read. -/
theorem define_apply (vars : Variables) (source : Source) (s : Session) :
    define vars source s =
      match (source.read vars.maxNesting).1 with
      | .error err => (.error err, afterRead vars s source)
      | .ok (.map key value rest) => bindAll vars ((key, value) :: rest) (afterRead vars s source)
      | .ok _ => (.error (.mismatch .definitions), afterRead vars s source) := by
  rw [define, read, SessionStep.bind_apply, absorb_apply]
  rcases (source.read vars.maxNesting).1 with err | d
  · rfl
  · cases d <;> rfl

theorem run_define (vars : Variables) (source : Source) (s : Session) :
    Request.run vars (.action (.define source)) s =
      ((define vars source s).1.map fun _ => none, (define vars source s).2) := none_apply _ s

/-- Only a value that names something is bound. -/
theorem run_bindNamed (vars : Variables) (name value : Value) (s : Session) :
    Request.run vars (.bindNamed name value) s =
      match name.bindingKey with
      | .error err => (.error err, s)
      | .ok key => (.ok none, { s with scope := s.scope.extend [(key.name, value)] }) := by
  have hrun : Request.run vars (.bindNamed name value) s = _ := none_apply _ s
  rw [hrun, bindNamed, SessionStep.bind_apply]
  cases name.bindingKey <;> rfl

/-- The step lemma: what a request binds is in the scope after it. -/
theorem Binds.scope_eq {vars : Variables} {s : Session} {request : Request}
    {result : Except Error (Option Value)} {bs : Bindings Value}
    (h : Binds vars s request result bs) :
    (request.run vars s).2.scope = s.scope.extendEach bs := by
  cases h with
  | read source => exact ((keepsScope_absorb _).bind fun _ _ => rfl) s
  | eval source => exact (keepsScope_document vars _).some s
  | evaluate e => exact (keepsScope_evaluate vars e).some s
  | load source => exact (keepsScope_document vars _).some s
  | bind name value => rfl
  | bindNamed value h =>
    rw [run_bindNamed, h]
    rfl
  | nameless value h =>
    rw [run_bindNamed, h]
    rfl
  | unread h =>
    rw [run_define, define_apply, h]
    rfl
  | @notMap source d h hmap =>
    rw [run_define, define_apply, h]
    cases d with
    | map key value rest => exact absurd rfl (hmap key value rest)
    | _ => rfl
  | define h hentries =>
    rw [run_define, define_apply, h]
    exact hentries.sound.2

/-- Every request binds something or nothing. -/
theorem exists_binds (vars : Variables) (request : Request) (s : Session) :
    ∃ bs, Binds vars s request (request.run vars s).1 bs := by
  cases request with
  | action a =>
    cases a with
    | read source => exact ⟨[], .read source _⟩
    | eval source => exact ⟨[], .eval source _⟩
    | evaluate e => exact ⟨[], .evaluate e _⟩
    | load source => exact ⟨[], .load source _⟩
    | bind name value => exact ⟨[(name, value)], .bind name value⟩
    | define source =>
      rw [run_define, define_apply]
      rcases hread : (source.read vars.maxNesting).1 with err | d
      · exact ⟨[], .unread hread⟩
      · cases d with
        | map key value rest =>
          obtain ⟨result, bs, hentries⟩ := exists_bindsEntries vars ((key, value) :: rest)
            (afterRead vars s source)
          obtain ⟨hresult, -⟩ := hentries.sound
          rw [← hresult] at hentries
          exact ⟨bs, .define hread hentries⟩
        | _ => exact ⟨[], .notMap hread (by rintro key value rest ⟨⟩)⟩
  | bindNamed name value =>
    rw [run_bindNamed]
    cases h : name.bindingKey with
    | error err => exact ⟨[], .nameless value h⟩
    | ok key => exact ⟨[(key.name, value)], .bindNamed value h⟩

/-- Requests of whatever kind make a history, one after the other. -/
theorem exists_history (requests : List (Variables × Request)) (s : Session) :
    ∃ history, History s requests history := by
  induction requests generalizing s with
  | nil => exact ⟨[], .nil s⟩
  | cons r requests ih =>
    obtain ⟨vars, request⟩ := r
    obtain ⟨bs, hbinds⟩ := exists_binds vars request s
    obtain ⟨bs', hrest⟩ := ih (request.run vars s).2
    exact ⟨bs ++ bs', .cons hbinds hrest⟩

/-- The run lemma. -/
theorem History.scope_eq {requests : List (Variables × Request)} {s : Session}
    {history : Bindings Value} (h : History s requests history) :
    (s.after requests).scope = s.scope.extendEach history := by
  induction h with
  | nil s => rfl
  | cons hbinds _ ih => rw [Environment.extendEach_append, ← hbinds.scope_eq, ← ih, after, after,
      List.foldl_cons]

/-- **The scope of a session is its history.** Requests of whatever kind, of which any may fail, make
a history of bindings, and the scope after them is the one before with a frame for each of these. -/
theorem scope_history (requests : List (Variables × Request)) (s : Session) :
    (∃ history, History s requests history) ∧
      ∀ history, History s requests history →
        (s.after requests).scope = s.scope.extendEach history :=
  ⟨exists_history requests s, fun _ h => h.scope_eq⟩

/-- A name is bound, then something is that names nothing, and then three definitions are given, of
which the second cannot be evaluated. What is left is the name and the first definition, whose value
is that of the name. -/
theorem scope_history_define :
    let vars : Variables := ⟨none, none, none, none⟩
    let s : Session := ⟨Scope.standard 0, none, some 5, .start⟩
    let empty : Value := .nil
    let source : Source := .text "a: x b: (c) d: 1"
    let requests : List (Variables × Request) := [(vars, .action (.bind "x" empty)),
      (vars, .bindNamed empty empty), (vars, .action (.define source))]
    History s requests [("x", empty), ("a", empty)] ∧
      (s.after requests).scope = (s.scope.extend [("x", empty)]).extend [("a", empty)] := by
  intro vars s empty source requests
  let s₁ : Session := { s with scope := s.scope.extend [("x", empty)] }
  let word (t : Text) : Datum := .atom (Atom.bare t)
  have hread : (source.read vars.maxNesting).1 = .ok (.map (word "a") (word "x")
      [(word "b", .list [word "c"]), (word "d", word "1")]) := by cbv
  have hentries : BindsEntries vars (afterRead vars s₁ source)
      [(word "a", word "x"), (word "b", .list [word "c"]), (word "d", word "1")]
      (.error (.unbound "c")) [("a", empty)] :=
    .first rfl (.cons rfl rfl rfl (.nil _)) (.value rfl rfl rfl)
  have hdefine : Binds vars s₁ (.action (.define source))
      (Request.run vars (.action (.define source)) s₁).1 [("a", empty)] := by
    rw [run_define, define_apply, hread]
    dsimp only
    rw [hentries.sound.1]
    exact .define hread hentries
  let first : Bindings Value := [("x", empty)]
  let second : Bindings Value := [("a", empty)]
  have hhistory : History s requests (first ++ ([] ++ (second ++ []))) :=
    .cons (.bind "x" empty) (.cons (.nameless empty rfl) (.cons hdefine (.nil _)))
  exact ⟨hhistory, (scope_history requests s).2 _ hhistory⟩

end Session

end MiniLisp
