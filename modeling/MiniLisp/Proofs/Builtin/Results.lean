import MiniLisp.Proofs.Builtin.WellFormed
import MiniLisp.Proofs.Evaluation.Literal
import MiniLisp.Proofs.Number.ReadBack

/-!
# Results of arithmetic can be fed back

Whatever arithmetic returns is a numeral again (`Builtin.arithmetic_feeds_back`): a later operation
reads a number from it, a document holds it as a bare word, and evaluation leaves it as it is.
`Atom.Reusable` collects what this takes. It holds of the numeral of every result
(`Atom.reusable_of_write`), and arithmetic returns nothing else.
-/

namespace MiniLisp

/-- The atom is a numeral that denotes a number, is written as the bare word that it is, and
evaluates to itself wherever there is room for one level of evaluation. -/
structure Atom.Reusable (a : Atom) : Prop where
  form : a.form = .bare
  isNumeral : a.isNumeral = true
  denotes : ∃ x, a.number? = .ok (some x)
  isBareWord : a.text.isBareWord = true
  serialize : a.serialize = a.text
  evaluates : ∀ (scope : Scope) (limits : Limits) (p : Progress),
    Run.evaluate (.atom a) scope limits p =
      if 1 ≤ limits.depth then (.ok (.atom a), p) else Run.tooDeep limits p

/-- **The numeral of a result can be fed back.** -/
theorem Atom.reusable_of_write {n : Option Number} {t : Text} (h : Number.write n = .ok t) :
    (bare t).Reusable := by
  obtain ⟨_, y, -, hread, -⟩ := number?_write h
  have hnumeral := isNumeral_of_number? hread
  have hword := Number.isBareWord_write h
  have hliteral : (Tree.atom (bare t) : Value).isLiteral = true := by
    simp [Tree.isLiteral, isLiteral, isSymbol, hnumeral]
  refine ⟨rfl, hnumeral, ⟨y, hread⟩, hword, ?_, fun scope limits p => ?_⟩
  · have hfaithful : (bare t).isFaithful = true := hword
    rw [serialize, hfaithful]
    rfl
  · have hheight : (Tree.atom (bare t) : Value).height = 1 := rfl
    have hrun : Run.evaluate (.atom (bare t)) scope limits p =
        evaluate limits.depth.toNat (.atom (bare t)) scope limits p := rfl
    rw [hrun, evaluate_of_isLiteral hliteral, hheight]
    by_cases hdepth : 1 ≤ limits.depth
    · rw [if_pos hdepth, if_pos (by omega), Run.pure_apply]
    · rw [if_neg hdepth, if_neg (by omega)]

/-- Arithmetic returns numerals of results only. -/
theorem Arithmetic.yields_reusable (n : Option Number) :
    Yields (fun v => ∃ a, v = .atom a ∧ a.Reusable) (numeral n) :=
  yields_of_write fun _ ht => ⟨_, rfl, Atom.reusable_of_write ht⟩

/-- **Results of arithmetic can always be fed back.** Whatever the arguments are, a value that `+`,
`-`, `*`, `/` or `mod` returns is a bare numeral that denotes a number, is written as a bare word
and evaluates to itself. An integer is read back from its own numeral, and there is no such numeral
if it has more digits than can be written. -/
theorem Builtin.arithmetic_feeds_back (evaluate : Evaluate) (copy : Nat) :
    (∀ b ∈ [Builtin.add, .sub, .mul, .div, .mod], ∀ (args : List Value) (v : Value)
      (l : Limits) (p p' : Progress),
      Callable.apply evaluate args (.builtin copy b) l p = (.ok v, p') →
        ∃ a, v = .atom a ∧ a.Reusable) ∧
    ∀ n : Int,
      if (Nat.digits 10 n.natAbs).length ≤ digitLimit then
        ∃ a, Atom.ofNumber (some (.int n)) = .ok a ∧ a.number? = .ok (some (.int n))
      else Atom.ofNumber (some (.int n)) = .error .resultTooLong := by
  refine ⟨fun b hb args v l p p' h => ?_, fun n => ?_⟩
  · have hnumeral := Arithmetic.yields_reusable
    have hyields : Run.Yields (fun v => ∃ a, v = .atom a ∧ a.Reusable)
        (Callable.apply evaluate args (.builtin copy b)) := by
      simp only [List.mem_cons, List.not_mem_nil, or_false] at hb
      rcases hb with rfl | rfl | rfl | rfl | rfl
      · exact Run.Yields.ofExcept (Arithmetic.yields_sum hnumeral args)
      · exact Run.Yields.ofExcept (Arithmetic.yields_difference hnumeral args)
      · exact Run.Yields.ofExcept (Arithmetic.yields_product hnumeral args)
      · exact Run.Yields.ofExcept (Arithmetic.yields_quotient hnumeral args)
      · rcases args with _ | ⟨n, _ | ⟨d, _ | ⟨_, _⟩⟩⟩
        · exact fun _ _ => .error _
        · exact fun _ _ => .error _
        · exact Run.Yields.ofExcept (Arithmetic.yields_modulo hnumeral n d)
        · exact fun _ _ => .error _
    exact hyields l p v (by rw [h])
  · rw [Atom.ofNumber_int]
    split
    · have hshort : n.natAbs < 10 ^ digitLimit := (Nat.digits_length_le_iff (by decide) _).1 ‹_›
      exact ⟨_, rfl, Atom.number?_of_spells (Text.spells_ofInt hshort)⟩
    · rfl

/-- One divided by eight is written `0.125`, and that can be fed back. -/
theorem Builtin.arithmetic_feeds_back_eighth :
    let args : List Value := [.atom (Atom.bare "1"), .atom (Atom.bare "8")]
    let v : Value := .atom (Atom.bare "0.125")
    Callable.apply (evaluate 1) args (.builtin 0 .div) ⟨none, 1, .ok 1⟩ .start = (.ok v, .start) ∧
      ∃ a, v = .atom a ∧ a.Reusable := by
  intro args v
  let eighth : Binary64 := ⟨false, leastFull, 1019, by decide⟩
  have hdivided : Number.div (some (.int 1)) (.int 8) = .ok (some (.real eighth)) := by
    decide +kernel
  have hwrite : Number.write (some (.real eighth)) = .ok "0.125" := by decide +kernel
  have hnumbers : Arithmetic.numbers Builtin.div.name args = .ok [.int 1, .int 8] := rfl
  have hquotient : Arithmetic.quotient args = .ok v := by
    rw [Arithmetic.quotient, hnumbers]
    simp only [bind, Except.bind, Number.accumulate, List.foldlM_cons, List.foldlM_nil, hdivided,
      pure, Except.pure, Arithmetic.checked, Arithmetic.numeral, Atom.ofNumber, hwrite, Except.map]
    rfl
  have hcall : Callable.apply (evaluate 1) args (.builtin 0 .div) =
      Run.ofExcept (Arithmetic.quotient args) := rfl
  have hresult : Callable.apply (evaluate 1) args (.builtin 0 .div) ⟨none, 1, .ok 1⟩ .start =
      (.ok v, .start) := by
    rw [hcall, hquotient]
    rfl
  exact ⟨hresult, (arithmetic_feeds_back (evaluate 1) 0).1 .div (by decide) args v _ _ _ hresult⟩

end MiniLisp
