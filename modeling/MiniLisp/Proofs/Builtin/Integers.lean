import Mathlib.Algebra.BigOperators.Group.List.Basic
import MiniLisp.Evaluation.Evaluate
import MiniLisp.Proofs.Builtin.Equality
import MiniLisp.Proofs.Number.Numeral

/-!
# Integer arithmetic is exact

Arguments that spell integers are added, subtracted, multiplied, divided with remainder and compared
as integers (`Builtin.integer_arithmetic`).

* `Arithmetic.accumulate_int`: an operation that is exact for two integers is exact for any number
  of them. No result on the way is too long, only the final one can be.
* `Arithmetic.comparison_int`: neighbours compare as demanded if and only if all pairs do, an order
  being transitive.
-/

namespace MiniLisp

namespace Arithmetic

variable {texts : List Text} {ns : List Int}

/-- Bare atoms with these texts. -/
def words (texts : List Text) : List Value := texts.map fun t => .atom (Atom.bare t)

/-- The numeral of an integer, unless it has more digits than can be written. -/
def exactly (n : Int) : Except Error Value :=
  if (Nat.digits 10 n.natAbs).length ≤ digitLimit then .ok (.atom (Atom.bare (Text.ofInt n)))
  else .error (.arithmetic .resultTooLong)

theorem numeral_int (n : Int) : numeral (some (.int n)) = exactly n := by
  rw [numeral, Atom.ofNumber_int, exactly]
  split <;> rfl

theorem number_of_spells (builtin : Text) {t : Text} {n : Int} (h : t.SpellsInt n) :
    number builtin (.atom (Atom.bare t)) = .ok (.int n) := by
  simp only [number, Atom.number?_of_spells h]
  rfl

theorem numbers_of_spells (builtin : Text) (h : List.Forall₂ Text.SpellsInt texts ns) :
    numbers builtin (words texts) = .ok (ns.map .int) := by
  induction h with
  | nil => rfl
  | cons ht _ ih =>
    rw [numbers, words] at ih ⊢
    rw [List.map_cons, List.mapM_cons, number_of_spells builtin ht, ih]
    rfl

/-- An operation that is exact for two integers is exact for any number of them. -/
theorem accumulate_int (operation : Number.Operation) {f : Int → Int → Int}
    (hexact : ∀ m n, operation (some (.int m)) (.int n) = .ok (some (.int (f m n))))
    (start : Int) (ns : List Int) :
    Number.accumulate operation (some (.int start)) (ns.map .int) =
      .ok (some (.int (ns.foldl f start))) := by
  induction ns generalizing start with
  | nil => rfl
  | cons n ns ih =>
    rw [List.map_cons, Number.accumulate, List.foldlM_cons, hexact]
    exact ih (f start n)

theorem foldl_sub (start : Int) (ns : List Int) : ns.foldl (· - ·) start = start - ns.sum := by
  induction ns generalizing start with
  | nil => simp
  | cons n ns ih => rw [List.foldl_cons, ih, List.sum_cons]; omega

theorem sum_int (h : List.Forall₂ Text.SpellsInt texts ns) :
    sum (words texts) = exactly ns.sum := by
  have hfold := accumulate_int Number.add (fun _ _ => rfl) 0 ns
  simp only [sum, numbers_of_spells _ h, bind, Except.bind, hfold, checked, numeral_int,
    List.sum_eq_foldl]

theorem product_int (h : List.Forall₂ Text.SpellsInt texts ns) :
    product (words texts) = exactly ns.prod := by
  have hfold := accumulate_int Number.mul (fun _ _ => rfl) 1 ns
  simp only [product, numbers_of_spells _ h, bind, Except.bind, hfold, checked, numeral_int,
    List.prod_eq_foldl]

theorem difference_int {n : Int} (h : List.Forall₂ Text.SpellsInt texts (n :: ns)) :
    difference (words texts) = exactly (if ns = [] then -n else n - ns.sum) := by
  have hnumbers := numbers_of_spells Builtin.sub.name h
  cases ns with
  | nil =>
    simp only [difference, hnumbers, bind, Except.bind, List.map_cons, List.map_nil,
      Number.neg, numeral_int, if_true]
  | cons m ns =>
    have hfold := accumulate_int Number.sub (fun _ _ => rfl) n (m :: ns)
    rw [foldl_sub, List.map_cons] at hfold
    simp only [difference, hnumbers, bind, Except.bind, List.map_cons, hfold, checked,
      numeral_int, reduceCtorEq, if_false]

/-- The remainder of a division is smaller than the divisor and has its sign. -/
theorem fmod_spec (n : Int) {d : Int} (hd : d ≠ 0) :
    (n.fmod d).natAbs < d.natAbs ∧ (n.fmod d = 0 ∨ (n.fmod d).sign = d.sign) := by
  rcases Int.lt_or_gt_of_ne hd with hneg | hpos
  · have hlow := Int.fmod_nonneg_of_pos (-n) (b := -d) (by omega)
    have hhigh := Int.fmod_lt_of_pos (-n) (b := -d) (by omega)
    rw [Int.neg_fmod_neg] at hlow hhigh
    refine ⟨by omega, or_iff_not_imp_left.2 fun hne => ?_⟩
    rw [Int.sign_eq_neg_one_of_neg hneg, Int.sign_eq_neg_one_of_neg (by omega)]
  · have hlow := Int.fmod_nonneg_of_pos n hpos
    have hhigh := Int.fmod_lt_of_pos n hpos
    refine ⟨by omega, or_iff_not_imp_left.2 fun hne => ?_⟩
    rw [Int.sign_eq_one_of_pos hpos, Int.sign_eq_one_of_pos (by omega)]

/-- A remainder is no longer than the divisor, which could be read. -/
theorem modulo_int {s t : Text} {n d : Int} (hn : s.SpellsInt n) (ht : t.SpellsInt d) (hd : d ≠ 0) :
    modulo (.atom (Atom.bare s)) (.atom (Atom.bare t)) =
      .ok (.atom (Atom.bare (Text.ofInt (n.fmod d)))) := by
  have hshort : (Nat.digits 10 (n.fmod d).natAbs).length ≤ digitLimit :=
    (Nat.digits_length_le_iff (by decide) _).2 ((fmod_spec n hd).1.trans ht.natAbs_lt)
  simp only [modulo, number_of_spells _ hn, number_of_spells _ ht, bind, Except.bind, if_neg hd,
    numeral_int, exactly, if_pos hshort]

theorem chained_map {α β : Type} (related : β → β → Bool) (f : α → β) (xs : List α) :
    chained related (xs.map f) = chained (fun a b => related (f a) (f b)) xs := by
  induction xs with
  | nil => rfl
  | cons a xs ih =>
    cases xs with
    | nil => rfl
    | cons b xs => exact congrArg (related (f a) (f b) && ·) ih

/-- Integers compare as demanded in every neighbouring pair if and only if they do in every pair. -/
theorem comparison_int (builtin : Builtin) {accept : Ordering → Bool} {related : Int → Int → Prop}
    [DecidableRel related] (haccept : ∀ m n : Int, accept (compare m n) = true ↔ related m n)
    (htrans : ∀ a b c, related a b → related b c → related a c)
    (h : List.Forall₂ Text.SpellsInt texts ns) (hlength : 2 ≤ ns.length) :
    comparison builtin accept (words texts) =
      .ok (Value.ofBool (decide (ns.Pairwise related))) := by
  have hargs : ¬ (words texts).length < 2 := by
    rw [words, List.length_map, h.length_eq]
    omega
  have hchained : chained (fun a b => accept (Number.compare a b)) (ns.map .int) =
      decide (ns.Pairwise related) := by
    have hpairs : chained (fun m n : Int => accept (compare m n)) ns = true ↔
        ns.Pairwise fun m n => accept (compare m n) = true :=
      chained_iff_pairwise (fun a b c => by simpa only [haccept] using htrans a b c) ns
    have hcompare (m n : Int) : Number.compare (.int m) (.int n) = compare m n := rfl
    rw [chained_map, Bool.eq_iff_iff, decide_eq_true_iff]
    simpa only [hcompare, haccept] using hpairs
  simp only [comparison, numbers_of_spells _ h, if_neg hargs, bind, Except.bind, pure,
    Except.pure, hchained]

end Arithmetic

/-- **Integer arithmetic is exact.** Integers are written as canonical decimals. Let each argument
be a bare atom that spells an integer. Then `+`, `*` and `-` have the decimal of the sum, of the
product, and of the opposite of a single integer or of the first less all others. They fail if and
only if that very integer has more digits than can be written. A remainder lies below the divisor
and has its sign, and a comparison holds if and only if it holds of every two arguments in their
order. -/
theorem Builtin.integer_arithmetic (evaluate : Evaluate) (copy : Nat) {texts : List Text}
    {ns : List Int} (h : List.Forall₂ Text.SpellsInt texts ns) :
    let call (b : Builtin) : Run Value :=
      Callable.apply evaluate (Arithmetic.words texts) (.builtin copy b)
    (∀ n : Int, (Text.ofInt n).IsDecimal n) ∧
    call .add = Run.ofExcept (Arithmetic.exactly ns.sum) ∧
    call .mul = Run.ofExcept (Arithmetic.exactly ns.prod) ∧
    (∀ n rest, ns = n :: rest →
      call .sub = Run.ofExcept (Arithmetic.exactly (if rest = [] then -n else n - rest.sum))) ∧
    (∀ n d, ns = [n, d] → d ≠ 0 → ∃ q r : Int, n = q * d + r ∧ r.natAbs < d.natAbs ∧
      (r = 0 ∨ r.sign = d.sign) ∧ call .mod = pure (.atom (Atom.bare (Text.ofInt r)))) ∧
    (2 ≤ ns.length →
      call .less = pure (Value.ofBool (decide (ns.Pairwise (· < ·)))) ∧
      call .lessEqual = pure (Value.ofBool (decide (ns.Pairwise (· ≤ ·)))) ∧
      call .greater = pure (Value.ofBool (decide (ns.Pairwise (· > ·)))) ∧
      call .greaterEqual = pure (Value.ofBool (decide (ns.Pairwise (· ≥ ·))))) := by
  intro call
  refine ⟨Text.isDecimal_ofInt, ?_, ?_, ?_, ?_, ?_⟩
  · exact congrArg Run.ofExcept (Arithmetic.sum_int h)
  · exact congrArg Run.ofExcept (Arithmetic.product_int h)
  · rintro n rest rfl
    exact congrArg Run.ofExcept (Arithmetic.difference_int h)
  · rintro n d rfl hd
    obtain _ | ⟨hn, _ | ⟨ht, _ | _⟩⟩ := h
    obtain ⟨hsmall, hsign⟩ := Arithmetic.fmod_spec n hd
    have hdivided : n = n.fdiv d * d + n.fmod d := by
      rw [Int.mul_comm, Int.mul_fdiv_add_fmod]
    exact ⟨n.fdiv d, n.fmod d, hdivided, hsmall, hsign,
      congrArg Run.ofExcept (Arithmetic.modulo_int hn ht hd)⟩
  · intro hlength
    have hcall {b : Builtin} {accept : Ordering → Bool} {related : Int → Int → Prop}
        [DecidableRel related] (haccept : ∀ m n : Int, accept (compare m n) = true ↔ related m n)
        (htrans : ∀ a b c, related a b → related b c → related a c) :
        Run.ofExcept (Arithmetic.comparison b accept (Arithmetic.words texts)) =
          pure (Value.ofBool (decide (ns.Pairwise related))) :=
      congrArg Run.ofExcept (Arithmetic.comparison_int b haccept htrans h hlength)
    refine ⟨hcall (fun m n => ?_) fun _ _ _ => Int.lt_trans,
      hcall (fun _ _ => Int.isLE_compare) fun _ _ _ => Int.le_trans,
      hcall (fun m n => ?_) fun _ _ _ hab hbc => Int.lt_trans hbc hab,
      hcall (fun _ _ => Int.isGE_compare) fun _ _ _ hab hbc => Int.le_trans hbc hab⟩
    · rw [Ordering.isLT_iff_eq_lt, compare_lt_iff_lt]
    · rw [Ordering.isGT_iff_eq_gt, compare_gt_iff_gt]

/-- Minus seven and an Arabic three after a plus: the sum is `-4` and the remainder two. -/
theorem Builtin.integer_arithmetic_two :
    let texts : List Text := ["-7", "+٣"]
    let call (b : Builtin) : Run Value :=
      Callable.apply (evaluate 1) (Arithmetic.words texts) (.builtin 0 b)
    List.Forall₂ Text.SpellsInt texts [-7, 3] ∧
      call .add = pure (.atom (Atom.bare "-4")) ∧ call .sub = pure (.atom (Atom.bare "-10")) ∧
      call .mod = pure (.atom (Atom.bare "2")) ∧ call .less = pure (Value.ofBool true) := by
  intro texts call
  have h : List.Forall₂ Text.SpellsInt texts [-7, 3] :=
    .cons (.minus (.digit rfl) (by decide)) (.cons (.plus (.digit rfl) (by decide)) .nil)
  have hexact {m n : Int} (hm : m = n) (hn : (Nat.digits 10 n.natAbs).length ≤ digitLimit) :
      Run.ofExcept (Arithmetic.exactly m) = pure (.atom (Atom.bare (Text.ofInt n))) := by
    rw [hm, Arithmetic.exactly, if_pos hn]
    rfl
  obtain ⟨-, hsum, -, hdifference, hmodulo, hcompare⟩ := integer_arithmetic (evaluate 1) 0 h
  obtain ⟨q, r, hdivided, hsmall, hsign, hremainder⟩ := hmodulo (-7) 3 rfl (by decide)
  have hnonneg : 0 ≤ r := by
    rcases hsign with rfl | hpos
    · exact Int.le_refl 0
    · exact Int.le_of_lt (Int.sign_eq_one_iff_pos.1 hpos)
  obtain rfl : r = 2 := by omega
  exact ⟨h, hsum.trans (hexact (n := -4) (by decide) (by decide)),
    (hdifference (-7) [3] rfl).trans (hexact (n := -10) (by decide) (by decide)), hremainder,
    (hcompare (by decide)).1⟩

end MiniLisp
