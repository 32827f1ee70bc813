import MiniLisp.Proofs.Number.Numeral
import MiniLisp.Proofs.Number.Rounding

/-!
# Results are read back

The text of a double is a numeral that denotes the same double (`Atom.number?_toText`), and the
numeral of any result denotes a number equal to it (`Atom.number?_write`).

* `Binary64.ofDecimal_shortest`: the digits of a double read back to it, also those of the exact
  expansion.
* `Numeral.LaysOut`: a layout only moves the point. The numeral has the digits as its coefficient,
  but for zeros behind them, and its exponent makes up for these.
-/

namespace MiniLisp

open CodePoint (ofChar)

/-! ## Digits of a double -/

theorem decimalLength_le_iff {n k : Nat} (hk : 0 < k) : decimalLength n ≤ k ↔ n < 10 ^ k := by
  by_cases hn : n = 0
  · simp [decimalLength, hn]
  · rw [decimalLength, if_neg hn, Nat.length_toDigits_le_iff (by decide) hk]

/-- A product has at least as many digits as one factor, and no more than a bound on both. -/
theorem decimalLength_mul {m a b low high : Nat} (hlow : 0 < low) (hhigh : 0 < high) (hpos : 0 < m)
    (hlt : m < a) (hleast : 10 ^ low ≤ b) (hmost : a * b ≤ 10 ^ high) :
    low < decimalLength (m * b) ∧ decimalLength (m * b) ≤ high := by
  rw [← Nat.not_le, decimalLength_le_iff hlow, decimalLength_le_iff hhigh, Nat.not_lt]
  have hb : 0 < b := (Nat.pow_pos (by decide)).trans_le hleast
  exact ⟨hleast.trans (Nat.le_mul_of_pos_left b hpos),
    (Nat.mul_lt_mul_of_pos_right hlt hb).trans_le hmost⟩

namespace Binary64

variable {x : Binary64}

theorem magnitude_lt (x : Binary64) {k : Nat} (hk : 2098 ≤ k) : x.magnitude < 2 ^ k := by
  obtain ⟨hlt, -, hexponent⟩ := x.canonical
  calc x.mantissa * 2 ^ x.exponent
      < 2 ^ 53 * 2 ^ x.exponent := Nat.mul_lt_mul_of_pos_right hlt (Nat.two_pow_pos _)
    _ = 2 ^ (53 + x.exponent) := (Nat.pow_add ..).symm
    _ ≤ 2 ^ k := Nat.pow_le_pow_right (by decide) (by omega)

theorem magnitude_pos (hx : ¬ x.isZero) : 0 < x.magnitude :=
  Nat.mul_pos (Nat.pos_of_ne_zero fun hzero => hx (decide_eq_true hzero)) (Nat.two_pow_pos _)

theorem eq_zero_of_isZero (hx : x.isZero = true) : x = zero x.negative := by
  obtain ⟨negative, mantissa, exponent, hcanonical⟩ := x
  obtain rfl : mantissa = 0 := of_decide_eq_true hx
  obtain ⟨-, hfull | rfl, -⟩ := hcanonical
  · exact absurd hfull (by decide)
  · rfl

/-- The exact expansion is neither too large nor too small to be read. -/
theorem decimalLength_expansion (hx : ¬ x.isZero) :
    674 < decimalLength x.expansion.coefficient ∧
      decimalLength x.expansion.coefficient ≤ 1474 :=
  decimalLength_mul (by decide) (by decide) (magnitude_pos hx) (x.magnitude_lt (Nat.le_refl _))
    (by decide +kernel) (by decide +kernel)

/-- A number of units over a power of two is a decimal number with as many places. -/
theorem ofRatio_magnitude (x : Binary64) {places : Nat} (hunit : unit = Nat.pow 2 places) :
    ofRatio x.negative (x.magnitude * Nat.pow 5 places) (Nat.pow 10 places) = some x := by
  have hunits : x.magnitude * Nat.pow 5 places * unit = x.magnitude * Nat.pow 10 places := by
    simp only [hunit, Nat.pow_eq]
    rw [Nat.mul_assoc, ← Nat.mul_pow]
  have hscale := round_scale x.negative x.magnitude 1 (Nat.pow_pos (by decide) : 0 < 10 ^ places)
  rw [Nat.one_mul, ← Nat.pow_eq, round_magnitude] at hscale
  rw [ofRatio, hunits, hscale]

theorem ofDecimal_expansion (hx : ¬ x.isZero) : ofDecimal x.negative x.expansion = some x := by
  obtain ⟨hlow, hhigh⟩ := decimalLength_expansion hx
  have hexponent : x.expansion.exponent = -1074 := rfl
  have hplaces : (-x.expansion.exponent).toNat = 1074 := rfl
  have hcoefficient : x.expansion.coefficient ≠ 0 := by
    intro hzero
    rw [hzero] at hlow
    exact absurd hlow (by decide)
  rw [ofDecimal, if_neg (by omega), if_neg (by omega), if_neg (by omega), hplaces]
  exact x.ofRatio_magnitude (by decide +kernel)

/-- **The digits of a double read back to it.** -/
theorem ofDecimal_shortest (hx : ¬ x.isZero) : ofDecimal x.negative x.shortest = some x := by
  rw [shortest]
  cases hfound : (List.range 17).findSome? fun k => x.readingBack? (k + 1) with
  | none => exact ofDecimal_expansion hx
  | some y =>
    obtain ⟨k, -, hk⟩ := List.exists_of_findSome?_eq_some hfound
    simpa using List.find?_some hk

theorem shortest_coefficient_ne_zero (hx : ¬ x.isZero) : x.shortest.coefficient ≠ 0 := by
  intro hzero
  have hread := ofDecimal_shortest hx
  rw [ofDecimal_eq, if_pos (.inl hzero), Option.some_inj] at hread
  exact hx (hread ▸ rfl)

end Binary64

/-- Digits of a number other than zero, without the zeros at their end. -/
theorem exists_significant {digits : Text} {n : Nat} (run : digits.DigitsOf n) (hn : n ≠ 0) :
    ∃ (significant : Text) (count : Nat),
      (digits.reverse.dropWhile (· = ofChar '0')).reverse = significant ∧
      digits.length = significant.length + count ∧ significant ≠ [] ∧
      (∀ c ∈ significant, c.isDigit = true) ∧ n = significant.decimalValue * 10 ^ count := by
  obtain ⟨significant, hsignificant⟩ :
      ∃ t : Text, (digits.reverse.dropWhile (· = ofChar '0')).reverse = t := ⟨_, rfl⟩
  obtain ⟨trailing, htrailing⟩ :
      ∃ t : Text, (digits.reverse.takeWhile (· = ofChar '0')).reverse = t := ⟨_, rfl⟩
  have hsplit : digits = significant ++ trailing := by
    rw [← hsignificant, ← htrailing, ← List.reverse_append, List.takeWhile_append_dropWhile,
      List.reverse_reverse]
  have hzeros : trailing = List.replicate trailing.length (ofChar '0') := by
    refine List.eq_replicate_of_mem fun c hc => ?_
    rw [← htrailing, List.mem_reverse] at hc
    simpa using List.all_eq_true.1 List.all_takeWhile c hc
  have hvalue : n = significant.decimalValue * 10 ^ trailing.length := by
    rw [← Text.decimalValue_append_zeros, ← hzeros, ← hsplit, run.decimalValue]
  refine ⟨significant, trailing.length, hsignificant, by rw [hsplit, List.length_append], ?_, ?_,
    hvalue⟩
  · rintro rfl
    rw [Text.decimalValue, List.foldl_nil, Nat.zero_mul] at hvalue
    exact hn hvalue
  · intro c hc
    exact run.isDigit c (hsplit ▸ List.mem_append_left _ hc)

/-! ## Layouts -/

namespace Numeral

/-- The numeral spells `t` but for its sign, and its digits are those of `c * 10 ^ e`, perhaps with
zeros behind them. -/
structure LaysOut (n : Numeral) (t : Text) (c : Nat) (e : Int) : Prop where
  wellFormed : n.WellFormed
  notInteger : n.isInteger = false
  unsigned : n.unsigned = t
  decimal : ∃ k : Nat, n.decimal = ⟨c * 10 ^ k, e - k⟩

/-- Digits before and after a point. -/
theorem laysOut_positional (negative : Bool) {whole fraction : Text} (hne : whole ≠ [])
    (hwhole : ∀ c ∈ whole, c.isDigit = true) (hfraction : ∀ c ∈ fraction, c.isDigit = true)
    {c : Nat} {e : Int} {k : Nat} (hvalue : (whole ++ fraction).decimalValue = c * 10 ^ k)
    (hlength : e - k = -fraction.length) :
    LaysOut ⟨negative, whole, some fraction, none⟩ (whole ++ ofChar '.' :: fraction) c e where
  wellFormed := ⟨hne, hwhole, fun _ h => by cases h; exact hfraction, nofun⟩
  notInteger := rfl
  unsigned := by rw [Numeral.unsigned, spellExponent, List.append_nil, spellFraction]
  decimal := ⟨k, by simp only [Numeral.decimal, Option.getD_some, hvalue, hlength, Int.zero_sub]⟩

/-- One digit, the others behind a point if there are others, and an exponent with its sign. -/
theorem laysOut_scientific (negative : Bool) (below : Prop) [Decidable below] {digit : CodePoint}
    {others lead size : Text} {e : Nat} (hdigit : digit.isDigit = true)
    (hothers : ∀ c ∈ others, c.isDigit = true) (hlead : ∀ c ∈ lead, c.isDigit = true)
    (hsize : ∀ c ∈ size, c.isDigit = true) (hne : size ≠ [])
    (hvalue : (lead ++ size).decimalValue = e) :
    LaysOut ⟨negative, [digit], if others.isEmpty then none else some others,
        some (decide below, lead ++ size)⟩
      ([digit] ++ (if others.isEmpty then [] else ofChar '.' :: others) ++ "e" ++
        (if below then "-" else "+") ++ lead ++ size)
      (Text.decimalValue (digit :: others))
      ((if below then -(e : Int) else e) - others.length) where
  wellFormed := by
    refine ⟨List.cons_ne_nil _ _, List.forall_mem_singleton.2 hdigit, ?_, ?_⟩
    · intro fraction hfraction
      split at hfraction
      · cases hfraction
      · cases hfraction
        exact hothers
    · intro exponent hsome
      cases hsome
      exact ⟨List.append_ne_nil_of_right_ne_nil _ hne, List.forall_mem_append.2 ⟨hlead, hsize⟩⟩
  notInteger := Bool.and_false _
  unsigned := by
    by_cases hbelow : below <;> cases others <;>
      simp [Numeral.unsigned, spellFraction, spellExponent, hbelow, Text.ofString]
  decimal := by
    subst hvalue
    refine ⟨0, ?_⟩
    by_cases hbelow : below <;> cases others <;> simp [Numeral.decimal, hbelow]

end Numeral

namespace DecimalLayout

/-- **A layout is a numeral with the digits for its coefficient.** -/
theorem laysOut_write (layout : DecimalLayout) (negative : Bool) {digits : Text} (hne : digits ≠ [])
    (hdigits : ∀ c ∈ digits, c.isDigit = true) (point : Int) :
    ∃ n : Numeral, n.negative = negative ∧
      n.LaysOut (layout.write digits point) digits.decimalValue (point - digits.length) := by
  have hzero : ∀ c ∈ [ofChar '0'], c.isDigit = true := by decide
  have happend {s t : Text} (hs : ∀ c ∈ s, c.isDigit = true) (ht : ∀ c ∈ t, c.isDigit = true) :
      ∀ c ∈ s ++ t, c.isDigit = true := List.forall_mem_append.2 ⟨hs, ht⟩
  rw [write]
  split
  · split
    · -- zeros between the point and the digits
      refine ⟨_, rfl, Numeral.laysOut_positional negative (List.cons_ne_nil _ _) hzero
        (happend (Text.zeros_isDigit (-point).toNat) hdigits) (k := 0) ?_ ?_⟩
      · rw [Nat.pow_zero, Nat.mul_one]
        exact Text.decimalValue_zeros_append ((-point).toNat + 1) digits
      · rw [List.length_append, List.length_replicate]
        omega
    split
    · -- zeros between the digits and the point
      refine ⟨_, rfl, Numeral.laysOut_positional negative (List.append_ne_nil_of_left_ne_nil hne _)
        (happend hdigits (Text.zeros_isDigit (point.toNat - digits.length))) hzero
        (k := point.toNat - digits.length + 1) ?_ ?_⟩
      · rw [List.append_assoc, ← List.replicate_succ', Text.decimalValue_append_zeros]
      · rw [List.length_singleton]
        omega
    · -- the point among the digits
      have htake : digits.take point.toNat ≠ [] := by
        rw [Ne, List.take_eq_nil_iff, not_or]
        exact ⟨by omega, hne⟩
      refine ⟨_, rfl, Numeral.laysOut_positional negative htake
        (fun c hc => hdigits c (List.mem_of_mem_take hc))
        (fun c hc => hdigits c (List.mem_of_mem_drop hc)) (k := 0) ?_ ?_⟩
      · rw [List.take_append_drop, Nat.pow_zero, Nat.mul_one]
      · rw [List.length_drop]
        omega
  · obtain ⟨digit, others, rfl⟩ := List.exists_cons_of_ne_nil hne
    obtain ⟨hdigit, hothers⟩ := List.forall_mem_cons.1 hdigits
    have hrun := Text.digitsOf_ofNat (point - 1).natAbs
    have hvalue (count : Nat) : Text.decimalValue
        (List.replicate count (ofChar '0') ++ Text.ofNat (point - 1).natAbs) =
          (point - 1).natAbs := by
      rw [Text.decimalValue_zeros_append, hrun.decimalValue]
    have hexponent : (if point - 1 < 0 then -((point - 1).natAbs : Int) else (point - 1).natAbs) -
        others.length = point - (digit :: others).length := by
      rw [List.length_cons]
      split <;> omega
    rw [← hexponent]
    exact ⟨_, rfl, Numeral.laysOut_scientific negative (point - 1 < 0) hdigit hothers
      (Text.zeros_isDigit _) hrun.isDigit hrun.ne_nil (hvalue _)⟩

end DecimalLayout

/-! ## Reading back -/

namespace Atom

/-- A layout after the sign of a double reads as the double that its digits read as. -/
theorem number?_of_laysOut {n : Numeral} {t : Text} {c : Nat} {e : Int} {x : Binary64}
    (h : n.LaysOut t c e) (hx : Binary64.ofDecimal n.negative ⟨c, e⟩ = some x) :
    (bare ((if n.negative then ("-" : Text) else "") ++ t)).number? = .ok (some (.real x)) := by
  obtain ⟨hwellFormed, hreal, rfl, k, hdecimal⟩ := h
  have hsign : Numeral.splitSign ((if n.negative then ("-" : Text) else "") ++ n.unsigned) =
      (n.negative, n.unsigned) := by
    cases hnegative : n.negative
    · exact Numeral.splitSign_unsigned hwellFormed
    · rfl
  have hvalue (t : Text) : n.value t = .ok (.real x) := by
    simp only [Numeral.value, hreal, hdecimal, Binary64.ofDecimal_scale, hx, Bool.false_eq_true,
      if_false]
  rw [number?, numeral?_bare hwellFormed hsign]
  simp only [hvalue, Except.map]

/-- Any decimal that reads as a double may be laid out for it. -/
theorem number?_write_of_ofDecimal (layout : DecimalLayout) {x : Binary64} {y : Decimal}
    (hne : y.coefficient ≠ 0) (hy : Binary64.ofDecimal x.negative y = some x) :
    let digits := Text.ofNat y.coefficient
    let significant := (digits.reverse.dropWhile (· = ofChar '0')).reverse
    (bare ((if x.negative then ("-" : Text) else "") ++
      layout.write significant (digits.length + y.exponent))).number? = .ok (some (.real x)) := by
  obtain ⟨c, e⟩ := y
  obtain ⟨significant, count, hsignificant, hlength, hnil, hdigits, hvalue⟩ :=
    exists_significant (Text.digitsOf_ofNat c) hne
  obtain ⟨n, hnegative, hlayout⟩ :=
    layout.laysOut_write x.negative hnil hdigits ((Text.ofNat c).length + e)
  have hexponent : (Text.ofNat c).length + e - significant.length - count = e := by omega
  have hread : Binary64.ofDecimal n.negative
      ⟨significant.decimalValue, (Text.ofNat c).length + e - significant.length⟩ = some x := by
    rw [hnegative, ← Binary64.ofDecimal_scale _ _ count, hexponent, ← hvalue]
    exact hy
  have hnumber := number?_of_laysOut hlayout hread
  rw [hnegative] at hnumber
  simp only [hsignificant]
  exact hnumber

/-- **The text of a double denotes the double.** -/
theorem number?_toText (x : Binary64) : (bare x.toText).number? = .ok (some (.real x)) := by
  rw [Binary64.toText]
  by_cases hzero : x.isZero = true
  · rw [if_pos hzero]
    have hdigit : ∀ c ∈ [ofChar '0'], c.isDigit = true := by decide
    have hlayout := Numeral.laysOut_positional x.negative (List.cons_ne_nil _ _) hdigit hdigit
      (c := 0) (e := -1) (k := 0) rfl rfl
    have hread : Binary64.ofDecimal x.negative ⟨0, -1⟩ = some x := by
      rw [Binary64.ofDecimal_zero, ← Binary64.eq_zero_of_isZero hzero]
    exact (number?_of_laysOut hlayout hread :)
  · rw [if_neg hzero]
    exact number?_write_of_ofDecimal .standard (Binary64.shortest_coefficient_ne_zero hzero)
      (Binary64.ofDecimal_shortest hzero)

end Atom

/-- The integer that a double is has its value. -/
theorem Binary64.scaled_of_toInt? {x : Binary64} {i : Int} (h : x.toInt? = some i) :
    x.scaled = i * unit := by
  unfold toInt? at h
  split at h
  · have hunits : x.magnitude / unit * unit = x.magnitude :=
      Nat.div_mul_cancel (Nat.dvd_of_mod_eq_zero ‹_›)
    cases h
    rw [scaled]
    split
    · rw [Int.neg_mul, ← Int.natCast_mul, hunits]
    · rw [← Int.natCast_mul, hunits]
  · cases h

/-- **The numeral of a result is read as a number equal to the result.** -/
theorem Atom.number?_write {n : Option Number} {t : Text} (h : Number.write n = .ok t) :
    ∃ x y, n = some x ∧ (bare t).number? = .ok (some y) ∧ x.compare y = .eq := by
  rcases Number.write_cases h with ⟨i, rfl, hi, hn⟩ | ⟨x, rfl, rfl⟩
  · have hread := number?_of_spells (Text.spells_ofInt hi)
    rcases hn with rfl | ⟨x, rfl, hx⟩
    · exact ⟨_, _, rfl, hread, Std.ReflOrd.compare_self⟩
    · refine ⟨_, _, rfl, hread, ?_⟩
      rw [Number.compare, Binary64.compareInt, Binary64.scaled_of_toInt? hx,
        Std.ReflOrd.compare_self]
      rfl
  · exact ⟨_, _, rfl, number?_toText x, Std.ReflOrd.compare_self⟩

end MiniLisp
