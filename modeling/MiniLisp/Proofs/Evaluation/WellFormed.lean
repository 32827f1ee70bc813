import MiniLisp.Proofs.Evaluation.Invariant

/-!
# Programs build only values that print faithfully

A document is well-formed when it has been read, the standard scope is well-formed to begin with,
and **evaluation keeps it that way** (`evaluate_keepsWellFormed`): new frames bind values, closures
take their parameters, body and scope from the program, and the builtins do their part. So a value
that a program returns has no atom whose form could get lost in writing. If there are no functions
in it either, `read` gives back what `to-text` made of it (`Value.reread_eq`), forms included.
-/

namespace MiniLisp

/-! ## Parameters -/

namespace SpecialForm

theorem isSymbol_symbol? {v : Value} (h : v.WellFormed) {name : Text}
    (hname : symbol? v = some name) : name.IsSymbol := by
  cases h with
  | @atom a ha =>
    rw [symbol?] at hname
    split at hname
    · rename_i hsymbol
      -- a symbol is bare, so its name is all there is to it
      have hbare : a.form = .bare := by
        simp only [Atom.isSymbol, Bool.and_eq_true, decide_eq_true_eq] at hsymbol
        exact hsymbol.1
      obtain rfl : Atom.bare name = a := by
        cases a
        cases hname
        cases hbare
        rfl
      exact ⟨ha, hsymbol⟩
    · cases hname
  | _ => cases hname

theorem length_eraseDups_le : ∀ names : List Text, names.eraseDups.length ≤ names.length
  | [] => Nat.le_refl 0
  | name :: names => by
    have hfilter := List.length_filter_le (fun other => !other == name) names
    have hle := length_eraseDups_le (names.filter fun other => !other == name)
    rw [List.eraseDups_cons, List.length_cons, List.length_cons]
    omega
termination_by names => names.length

/-- A list that is as long without its repetitions has none. -/
theorem nodup_of_length_eraseDups {names : List Text}
    (h : names.eraseDups.length = names.length) : names.Nodup := by
  induction names with
  | nil => exact .nil
  | cons name names ih =>
    have hfilter := List.length_filter_le (fun other => !other == name) names
    have hle := length_eraseDups_le (names.filter fun other => !other == name)
    rw [List.eraseDups_cons, List.length_cons, List.length_cons] at h
    -- nothing was filtered out, so the name does not come again
    have hkept : names.filter (fun other => !other == name) = names :=
      List.filter_sublist.eq_of_length (by omega)
    refine List.nodup_cons.2 ⟨fun hmem => ?_, ih (by rw [hkept] at h; omega)⟩
    rw [← hkept, List.mem_filter] at hmem
    simp at hmem

theorem yields_parameterNames {v : Value} (h : v.WellFormed) :
    Yields (fun names => names.Nodup ∧ ∀ name ∈ names, Text.IsSymbol name) (parameterNames v) := by
  cases h with
  | list hparams =>
    refine Yields.bind (Yields.mapM (Q := Text.IsSymbol) fun p hp => ?_) fun names hnames => ?_
    · cases hname : symbol? p with
      | none => exact .error _
      | some name => exact .ok (isSymbol_symbol? (hparams p hp) hname)
    · split
      · rename_i hlength
        exact .ok ⟨nodup_of_length_eraseDups hlength, hnames⟩
      · exact .error _
  | _ => exact .error _

end SpecialForm

/-! ## Evaluation -/

/-- Well-formed expressions evaluate to well-formed values in well-formed scopes. -/
def Evaluate.KeepsWellFormed (ev : Evaluate) : Prop :=
  ∀ e σ, e.WellFormed → σ.WellFormed → (ev e σ).Yields Value.WellFormed

/-- Being well-formed, which does not depend on what has been made. -/
def Invariant.wellFormedness : Invariant where
  atom := Atom.WellFormed
  callable _ := Callable.WellFormed
  wellFormed h := h
  mono _ hf := hf
  builtin := .builtin
  closure | .closure _ _ hbody hscope => ⟨hbody, hscope⟩
  newClosure hparams hnames hbody hscope :=
    have hsymbols := SpecialForm.yields_parameterNames hparams _ hnames
    .closure hsymbols.1 hsymbols.2 hbody hscope

theorem Scope.wellFormed_standard (copy : Nat) : (Scope.standard copy).WellFormed :=
  Invariant.wellFormedness.scope_standard 0 copy

/-- **Evaluation keeps values well-formed.** -/
theorem evaluate_keepsWellFormed (room : Nat) : Evaluate.KeepsWellFormed (evaluate room) := by
  intro e σ he hσ l p
  exact (Invariant.wellFormedness.evaluate room 0 e σ he hσ l p (Nat.zero_le _)).2

/-! ## Values without functions -/

/-- What each item is made into can be undone item by item. -/
theorem mapM_ok_inverse {ε α β : Type} {f : α → Except ε β} {g : β → α} {xs : List α}
    (h : ∀ a ∈ xs, ∃ b, f a = .ok b ∧ g b = a) : ∃ bs, xs.mapM f = .ok bs ∧ bs.map g = xs := by
  induction xs with
  | nil => exact ⟨[], rfl, rfl⟩
  | cons a xs ih =>
    obtain ⟨⟨b, hb, rfl⟩, hxs⟩ := List.forall_mem_cons.1 h
    obtain ⟨bs, hbs, rfl⟩ := ih hxs
    refine ⟨b :: bs, ?_, rfl⟩
    rw [List.mapM_cons, hb, hbs]
    rfl

namespace Tree

variable {α β γ : Type}

theorem fold_mapLeaf (f : Algebra β γ) (g : α → β) (t : Tree α) :
    fold f (mapLeaf g t) = fold { f with leaf := fun a => f.leaf (g a) } t := by
  induction t using Tree.induct with
  | atom a => rfl
  | list ts ih =>
    have hitems : (ts.map (mapLeaf g)).map (fold f) =
        ts.map (fold { f with leaf := fun a => f.leaf (g a) }) := by
      rw [List.map_map]
      exact List.map_congr_left ih
    rw [mapLeaf, fold_list, fold_list, fold_list]
    exact congrArg f.list hitems
  | map k v rest hk hv ih =>
    have hentries : (rest.map fun e => (mapLeaf g e.1, mapLeaf g e.2)).map
          (fun e => (fold f e.1, fold f e.2)) =
        rest.map fun e => (fold { f with leaf := fun a => f.leaf (g a) } e.1,
          fold { f with leaf := fun a => f.leaf (g a) } e.2) := by
      rw [List.map_map]
      exact List.map_congr_left fun e he => Prod.ext (ih e he).1 (ih e he).2
    rw [mapLeaf, fold_map, fold_map, fold_map]
    exact congr (congr (congrArg f.map hk) hv) hentries
  | leaf a => rfl

theorem nesting_ofDatum (d : Datum) : (ofDatum d : Tree α).nesting = d.nesting := by
  rw [nesting, ofDatum, fold_mapLeaf]
  rfl

/-- **A tree without leaves is a datum.** -/
theorem exists_datum {t : Tree α} (h : t.leaves = []) :
    ∃ d, t.toDatum = .ok d ∧ ofDatum d = t := by
  induction t using Tree.induct with
  | atom a => exact ⟨.atom a, rfl, rfl⟩
  | list ts ih =>
    rw [leaves_list, List.flatMap_eq_nil_iff] at h
    obtain ⟨ds, hds, rfl⟩ := mapM_ok_inverse fun t ht => ih t ht (h t ht)
    refine ⟨.list ds, ?_, ofDatum_list ds⟩
    rw [toDatum_list, hds]
    rfl
  | map k v rest hk hv ih =>
    simp only [leaves_map, List.append_eq_nil_iff, List.flatMap_eq_nil_iff] at h
    obtain ⟨hkey, hvalue, hrest⟩ := h
    obtain ⟨key, hkey, rfl⟩ := hk hkey
    obtain ⟨value, hvalue, rfl⟩ := hv hvalue
    have hentry : ∀ e ∈ rest, ∃ d : Datum × Datum,
        (do return (← e.1.toDatum, ← e.2.toDatum)) = .ok d ∧ Prod.map ofDatum ofDatum d = e := by
      intro e he
      obtain ⟨k, hk, hk'⟩ := (ih e he).1 (hrest e he).1
      obtain ⟨v, hv, hv'⟩ := (ih e he).2 (hrest e he).2
      refine ⟨(k, v), ?_, Prod.ext hk' hv'⟩
      rw [hk, hv]
      rfl
    obtain ⟨ds, hds, rfl⟩ := mapM_ok_inverse hentry
    refine ⟨.map key value ds, ?_, ofDatum_map key value ds⟩
    rw [toDatum_map, hkey, hvalue, hds]
    rfl
  | leaf a => cases h

end Tree

theorem Structure.toText_eq {v : Value} {d : Datum} (h : v.toDatum = .ok d) :
    toText v = .ok (.atom (Atom.quoted d.serialize)) := by
  have hserialize : v.serialize = .ok d.serialize := by
    rw [Value.serialize, Value.datum, h]
    rfl
  cases v with
  | leaf f => cases h
  | _ => simp only [toText, hserialize]; rfl

/-- What `read` gives for the text that `to-text` gives for a value. -/
def Value.reread (v : Value) : Run Value := do
  let t ← Builtin.toText.operation.call Builtin.toText.name [v]
  Builtin.read.operation.call Builtin.read.name [t]

theorem Value.reread_eq {v : Value} {d : Datum} (h : v.toDatum = .ok d) :
    v.reread = Run.read d.serialize := by
  have htext : Builtin.toText.operation.call Builtin.toText.name [v] =
      Run.ofExcept (Structure.toText v) := rfl
  rw [reread, htext, Structure.toText_eq h]
  rfl

/-- **A well-formed value without functions comes back as it is**, unless it nests too deep to be
read. -/
theorem Value.reread_result {v : Value} (hv : v.WellFormed) (hleaves : v.leaves = []) {l : Limits}
    {n : Nat} (hn : l.nesting = .ok n) (p : Progress) :
    (v.nesting ≤ n → (v.reread l p).1 = .ok (.list [v])) ∧
      (n < v.nesting → ∃ q, (v.reread l p).1 = .error (.read ⟨.tooDeep n, q⟩)) := by
  obtain ⟨d, hd, rfl⟩ := Tree.exists_datum hleaves
  have hdatum : Tree.All Atom.WellFormed (fun _ => True) d := Tree.all_ofDatum.1 hv
  have hreads := Datum.readsAs_of_wellFormed hdatum n
  rw [Datum.nesting_serialize] at hreads
  rw [Value.reread_eq hd, Run.read_apply, hn, Tree.nesting_ofDatum]
  constructor
  · intro hle
    simp only [Source.read, hreads.1 hle, Except.map, Tree.ofDatum_list]
    rfl
  · intro hlt
    obtain ⟨q, hq⟩ := hreads.2 hlt
    exact ⟨q, by simp only [Source.read, hq, Except.map]⟩

/-- **Programs build only values that print faithfully.** Whatever the limits, a document that is
read and evaluated in a standard scope returns a well-formed value, if it returns one. If there are
no functions in the value, then reading what `to-text` writes for it gives a list with the value as
its only item, atoms in the forms that they had. Only a limit below the nesting of the value stands
in the way. -/
theorem Source.evaluate_wellFormed {source : Source} {limit : Int} {d : Datum}
    (hread : (source.parse limit).result = .ok d) {copy : Nat} {l : Limits} {p : Progress}
    {v : Value} (hv : (Run.evaluate d (Scope.standard copy) l p).1 = .ok v) :
    v.WellFormed ∧ (v.leaves = [] → ∀ (l' : Limits) (p' : Progress) (n : Nat),
      l'.nesting = .ok n → (v.nesting ≤ n → (v.reread l' p').1 = .ok (.list [v])) ∧
        (n < v.nesting → ∃ q, (v.reread l' p').1 = .error (.read ⟨.tooDeep n, q⟩))) := by
  have hd : Value.WellFormed d :=
    Tree.all_ofDatum.2 (Source.wellFormed_of_parse (q := fun _ => True) hread)
  have hwf : v.WellFormed :=
    evaluate_keepsWellFormed l.depth.toNat d _ hd (Scope.wellFormed_standard copy) l p v hv
  exact ⟨hwf, fun hleaves l' p' n hn => Value.reread_result hwf hleaves hn p'⟩

/-- Atoms of all forms, taken from the program and made by it: the value comes back as it is where
two levels of parentheses may be read, and not where only one may. -/
theorem Source.evaluate_wellFormed_forms :
    let source : Source := .text "list (quote (a: #\"b\"#)) (not \"\") (concat \"c\" \" d\")"
    let v : Value := .list [.map (.atom ⟨"a", .bare⟩) (.atom ⟨"b", .guarded⟩) [],
      .atom ⟨"true", .bare⟩, .atom ⟨"c d", .quoted⟩]
    ∃ d, (source.parse 2).result = .ok d ∧
      (Run.evaluate d (Scope.standard 0) ⟨some 4, 3, .ok 2⟩ .start).1 = .ok v ∧ v.WellFormed ∧
      v.leaves = [] ∧ (v.reread ⟨none, 0, .ok 2⟩ .start).1 = .ok (.list [v]) ∧
      ∃ q, (v.reread ⟨none, 0, .ok 1⟩ .start).1 = .error (.read ⟨.tooDeep 1, q⟩) := by
  intro source v
  let d : Datum := .list [.atom ⟨"list", .bare⟩,
    .list [.atom ⟨"quote", .bare⟩, .map (.atom ⟨"a", .bare⟩) (.atom ⟨"b", .guarded⟩) []],
    .list [.atom ⟨"not", .bare⟩, .atom ⟨"", .quoted⟩],
    .list [.atom ⟨"concat", .bare⟩, .atom ⟨"c", .quoted⟩, .atom ⟨" d", .quoted⟩]]
  have hread : (source.parse 2).result = .ok d := by cbv
  have hvalue : (Run.evaluate d (Scope.standard 0) ⟨some 4, 3, .ok 2⟩ .start).1 = .ok v := rfl
  obtain ⟨hwf, hcomes⟩ := evaluate_wellFormed hread hvalue
  have hleaves : v.leaves = [] := rfl
  have htwo := hcomes hleaves ⟨none, 0, .ok 2⟩ .start 2 rfl
  have hone := hcomes hleaves ⟨none, 0, .ok 1⟩ .start 1 rfl
  exact ⟨d, hread, hvalue, hwf, hleaves, htwo.1 (by decide), hone.2 (by decide)⟩

end MiniLisp
