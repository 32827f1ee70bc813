import Mathlib.Data.Nat.Digits.Lemmas
import Mathlib.Tactic.Ring
import MiniLisp.Atom
import MiniLisp.Proofs.Number.Spelling

/-!
# Reading numerals

`Numeral.parse?` takes a numeral apart into the parts that it was put together from
(`Numeral.parse?_eq_some`), and a run of digits denotes what positional notation makes of them.

* `Text.DigitsOf`, `Text.SpellsInt`: positional notation by its own rules. A digit of any script is
  its value, and one more digit adds to ten times what stands before it.
* `Atom.number?_of_spells`: **a bare atom that spells an integer denotes it**.
* `Text.isDecimal_ofInt`, `Text.spells_ofInt`: **an integer is written as its canonical decimal**,
  which spells it, so that it is read back.
-/

namespace MiniLisp

open CodePoint (ofChar)

/-! ## Digits -/

theorem digitValue_digitChar {d : Nat} (h : d < 10) :
    (ofChar (Nat.digitChar d)).digitValue? = some d := by
  interval_cases d <;> decide

theorem digitValue_lt {c : CodePoint} {d : Nat} (h : c.digitValue? = some d) : d < 10 := by
  obtain ⟨k, -, rfl⟩ := Option.map_eq_some_iff.1 h
  exact Nat.mod_lt k (by decide)

namespace Text

/-- The text is a run of decimal digits, of any script, that denotes the number. -/
inductive DigitsOf : Text → Nat → Prop
  | digit {c : CodePoint} {d : Nat} (h : c.digitValue? = some d) : DigitsOf [c] d
  | more {t : Text} {n d : Nat} {c : CodePoint} (run : DigitsOf t n) (h : c.digitValue? = some d) :
      DigitsOf (t ++ [c]) (10 * n + d)

/-- The text is an integer numeral for the number: decimal digits after a sign, if any, and no more
of them than can be read. -/
inductive SpellsInt : Text → Int → Prop
  | unsigned {t : Text} {n : Nat} (h : DigitsOf t n) (short : t.length ≤ digitLimit) : SpellsInt t n
  | plus {t : Text} {n : Nat} (h : DigitsOf t n) (short : t.length ≤ digitLimit) :
      SpellsInt (ofChar '+' :: t) n
  | minus {t : Text} {n : Nat} (h : DigitsOf t n) (short : t.length ≤ digitLimit) :
      SpellsInt (ofChar '-' :: t) (-n)

theorem decimalValue_concat (t : Text) (c : CodePoint) :
    decimalValue (t ++ [c]) = 10 * decimalValue t + c.digitValue?.getD 0 := by
  rw [decimalValue, List.foldl_append]
  rfl

theorem decimalValue_append (s t : Text) :
    decimalValue (s ++ t) = decimalValue s * 10 ^ t.length + decimalValue t := by
  induction t using List.reverseRecOn with
  | nil => simp [decimalValue]
  | append_singleton t c ih =>
    rw [← List.append_assoc, decimalValue_concat, ih, decimalValue_concat, List.length_append,
      List.length_singleton, pow_succ]
    ring

theorem decimalValue_zeros (count : Nat) :
    decimalValue (List.replicate count (ofChar '0')) = 0 := by
  induction count with
  | zero => rfl
  | succ count ih => rw [List.replicate_succ', decimalValue_concat, ih]; rfl

theorem zeros_isDigit (count : Nat) :
    ∀ c ∈ List.replicate count (ofChar '0'), c.isDigit = true := by
  intro c hc
  rw [List.eq_of_mem_replicate hc]
  rfl

/-- Zeros before a number say nothing. -/
theorem decimalValue_zeros_append (count : Nat) (t : Text) :
    decimalValue (List.replicate count (ofChar '0') ++ t) = decimalValue t := by
  rw [decimalValue_append, decimalValue_zeros, Nat.zero_mul, Nat.zero_add]

/-- Zeros behind a number are powers of ten. -/
theorem decimalValue_append_zeros (t : Text) (count : Nat) :
    decimalValue (t ++ List.replicate count (ofChar '0')) = decimalValue t * 10 ^ count := by
  rw [decimalValue_append, decimalValue_zeros, List.length_replicate, Nat.add_zero]

namespace DigitsOf

variable {t : Text} {n : Nat}

theorem decimalValue (run : DigitsOf t n) : t.decimalValue = n := by
  induction run with
  | digit h => simp [Text.decimalValue, h]
  | more _ h ih => rw [decimalValue_concat, ih, h]; rfl

theorem isDigit (run : DigitsOf t n) : ∀ c ∈ t, c.isDigit = true := by
  induction run with
  | digit h =>
    refine List.forall_mem_singleton.2 ?_
    rw [CodePoint.isDigit, h]; rfl
  | more _ h ih =>
    refine List.forall_mem_append.2 ⟨ih, List.forall_mem_singleton.2 ?_⟩
    rw [CodePoint.isDigit, h]; rfl

theorem ne_nil (run : DigitsOf t n) : t ≠ [] := by
  cases run <;> simp

theorem lt (run : DigitsOf t n) : n < 10 ^ t.length := by
  induction run with
  | digit h => exact digitValue_lt h
  | more _ h ih =>
    have hd := digitValue_lt h
    rw [List.length_append, List.length_singleton, pow_succ]
    omega

end DigitsOf

/-- The last digit of a number after those of a tenth of it. -/
theorem ofNat_eq_if (n : Nat) :
    ofNat n = if n < 10 then [ofChar (Nat.digitChar n)]
      else ofNat (n / 10) ++ [ofChar (Nat.digitChar (n % 10))] := by
  rw [ofNat, Nat.toDigits_eq_if (by decide)]
  split
  · rfl
  · rw [List.map_append, List.map_singleton, ofNat]

/-- A natural number is written in its digits. -/
theorem digitsOf_ofNat (n : Nat) : DigitsOf (ofNat n) n := by
  induction n using Nat.strongRecOn with
  | ind n ih =>
    rw [ofNat_eq_if]
    split
    · exact .digit (digitValue_digitChar ‹n < 10›)
    · have hrun := DigitsOf.more (ih (n / 10) (by omega))
        (digitValue_digitChar (Nat.mod_lt n (by decide : 0 < 10)))
      rwa [Nat.div_add_mod] at hrun

theorem SpellsInt.natAbs_lt {t : Text} {n : Int} (h : SpellsInt t n) :
    n.natAbs < 10 ^ digitLimit := by
  have hrun {t : Text} {n : Nat} (h : DigitsOf t n) (short : t.length ≤ digitLimit) :
      n < 10 ^ digitLimit := h.lt.trans_le (Nat.pow_le_pow_right (by decide) short)
  cases h with
  | unsigned h short => exact hrun h short
  | plus h short => exact hrun h short
  | minus h short => rw [Int.natAbs_neg]; exact hrun h short

theorem ofNat_length_le {n k : Nat} (hk : 0 < k) : (ofNat n).length ≤ k ↔ n < 10 ^ k := by
  rw [ofNat, List.length_map, Nat.length_toDigits_le_iff (by decide) hk]

/-- The canonical decimal of the integer: ASCII digits that denote its magnitude, of which the first
is a zero only if it is the only one, after a minus sign if the integer is negative. -/
def IsDecimal (t : Text) (n : Int) : Prop :=
  ∃ digits : Text, t = (if n < 0 then ofChar '-' :: digits else digits) ∧
    DigitsOf digits n.natAbs ∧ (∀ c ∈ digits, c ∈ asciiDigits) ∧
    (digits.head? = some (ofChar '0') → digits = "0")

/-- Only zero is written with a zero in front. -/
theorem eq_zero_of_head?_ofNat {n : Nat} (h : (ofNat n).head? = some (ofChar '0')) : n = 0 := by
  induction n using Nat.strongRecOn with
  | ind n ih =>
    rw [ofNat_eq_if] at h
    split at h
    · have hvalue := digitValue_digitChar ‹n < 10›
      rw [Option.some.inj h] at hvalue
      exact (Option.some.inj hvalue).symm
    · -- the first digit is that of a tenth
      rw [List.head?_append_of_ne_nil _ (ofNat_ne_nil (n / 10))] at h
      have htenth := ih (n / 10) (by omega) h
      omega

/-- **An integer is written as its canonical decimal.** -/
theorem isDecimal_ofInt (n : Int) : IsDecimal (ofInt n) n := by
  have hfirst (n : Nat) (h : (ofNat n).head? = some (ofChar '0')) : ofNat n = "0" := by
    rw [eq_zero_of_head?_ofNat h]
    rfl
  cases n with
  | ofNat n => exact ⟨_, rfl, digitsOf_ofNat n, ofNat_ascii n, hfirst n⟩
  | negSucc n =>
    exact ⟨_, (if_pos (Int.negSucc_lt_zero n)).symm, digitsOf_ofNat (n + 1), ofNat_ascii (n + 1),
      hfirst (n + 1)⟩

/-- An integer is written as a numeral for itself. -/
theorem spells_ofInt {n : Int} (h : n.natAbs < 10 ^ digitLimit) : SpellsInt (ofInt n) n := by
  have hshort : (ofNat n.natAbs).length ≤ digitLimit := (ofNat_length_le (by decide)).2 h
  cases n with
  | ofNat n => exact .unsigned (digitsOf_ofNat n) hshort
  | negSucc n => exact .minus (digitsOf_ofNat (n + 1)) hshort

end Text

/-! ## Taking numerals apart -/

namespace Numeral

/-- The digits are digits, and there are some where there have to be. -/
structure WellFormed (n : Numeral) : Prop where
  whole_ne_nil : n.whole ≠ []
  whole_digits : ∀ c ∈ n.whole, c.isDigit = true
  fraction_digits : ∀ digits ∈ n.fraction, ∀ c ∈ digits, c.isDigit = true
  exponent_digits : ∀ e ∈ n.exponent, e.2 ≠ [] ∧ ∀ c ∈ e.2, c.isDigit = true

def spellExponent : Option (Bool × Text) → Text
  | none => []
  | some (negative, digits) => ofChar 'e' :: ofChar (if negative then '-' else '+') :: digits

def spellFraction : Option Text → Text
  | none => []
  | some digits => ofChar '.' :: digits

/-- The numeral without its sign. -/
def unsigned (n : Numeral) : Text :=
  n.whole ++ (spellFraction n.fraction ++ spellExponent n.exponent)

/-- Digits are split off up to the first mark that is none. -/
theorem splitDigits_append {digits rest : Text} (h : ∀ c ∈ digits, c.isDigit = true)
    (hstop : ∀ c ∈ rest.head?, c.isDigit = false) :
    splitDigits (digits ++ rest) = (digits, rest) := by
  rw [splitDigits, List.span_eq_takeWhile_dropWhile, List.takeWhile_append_of_pos h,
    List.dropWhile_append_of_pos h]
  cases rest with
  | nil => simp
  | cons c rest =>
    have hc : ¬ c.isDigit = true := by simpa using hstop c
    rw [List.takeWhile_cons_of_neg hc, List.dropWhile_cons_of_neg hc, List.append_nil]

theorem splitFraction_spell {fraction : Option Text} (exponent : Option (Bool × Text))
    (h : ∀ digits ∈ fraction, ∀ c ∈ digits, c.isDigit = true) :
    splitFraction (spellFraction fraction ++ spellExponent exponent) =
      (fraction, spellExponent exponent) := by
  have hstop : ∀ c ∈ (spellExponent exponent).head?, c.isDigit = false := by
    cases exponent with
    | none => simp [spellExponent]
    | some e => simpa [spellExponent] using (by decide : (ofChar 'e').isDigit = false)
  cases fraction with
  | none =>
    cases exponent with
    | none => rfl
    | some e => rfl
  | some digits =>
    rw [spellFraction, List.cons_append, splitFraction, if_pos rfl,
      splitDigits_append (h digits rfl) hstop]

theorem parseExponent?_spell {exponent : Option (Bool × Text)}
    (h : ∀ e ∈ exponent, e.2 ≠ [] ∧ ∀ c ∈ e.2, c.isDigit = true) :
    parseExponent? (spellExponent exponent) = some exponent := by
  cases exponent with
  | none => rfl
  | some e =>
    obtain ⟨negative, digits⟩ := e
    obtain ⟨hne, hdigits⟩ := h _ rfl
    have hsign : splitSign (ofChar (if negative then '-' else '+') :: digits) =
        (negative, digits) := by cases negative <;> rfl
    have hall : (digits.isEmpty || !digits.all CodePoint.isDigit) = false := by
      simpa [hne] using hdigits
    rw [spellExponent, parseExponent?, if_pos (.inl rfl), hsign]
    simp only [hall, Bool.false_eq_true, if_false]

/-- **A numeral put together from its parts is taken apart into them.** -/
theorem parse?_eq_some {n : Numeral} (h : n.WellFormed) {t : Text}
    (hsign : splitSign t = (n.negative, n.unsigned)) : parse? t = some n := by
  have hstop : ∀ c ∈ (spellFraction n.fraction ++ spellExponent n.exponent).head?,
      c.isDigit = false := by
    cases n.fraction with
    | some digits => simpa [spellFraction] using (by decide : (ofChar '.').isDigit = false)
    | none =>
      cases n.exponent with
      | none => simp [spellFraction, spellExponent]
      | some e =>
        simpa [spellFraction, spellExponent] using (by decide : (ofChar 'e').isDigit = false)
  have hwhole : n.whole.isEmpty = false := List.isEmpty_eq_false_iff.2 h.whole_ne_nil
  simp only [parse?, hsign, unsigned, splitDigits_append h.whole_digits hstop,
    splitFraction_spell n.exponent h.fraction_digits, parseExponent?_spell h.exponent_digits,
    hwhole, Bool.false_and, Bool.false_eq_true, if_false, Option.map_some]

/-- Digits do not start with a sign. -/
theorem splitSign_unsigned {n : Numeral} (h : n.WellFormed) :
    splitSign n.unsigned = (false, n.unsigned) := by
  obtain ⟨c, rest, hwhole⟩ := List.exists_cons_of_ne_nil h.whole_ne_nil
  have hc : c.isDigit = true := h.whole_digits c (hwhole ▸ List.mem_cons_self)
  have hminus : c ≠ ofChar '-' := by rintro rfl; exact absurd hc (by decide)
  have hplus : c ≠ ofChar '+' := by rintro rfl; exact absurd hc (by decide)
  rw [unsigned, hwhole, List.cons_append, splitSign, if_neg hminus, if_neg hplus]

end Numeral

namespace Numeral

/-- The numeral of an integer, from its digits. -/
def ofDigits (negative : Bool) (digits : Text) : Numeral := ⟨negative, digits, none, none⟩

variable {t digits : Text} {n : Nat}

theorem ofDigits_wellFormed (run : digits.DigitsOf n) (negative : Bool) :
    (ofDigits negative digits).WellFormed where
  whole_ne_nil := run.ne_nil
  whole_digits := run.isDigit
  fraction_digits _ h := nomatch h
  exponent_digits _ h := nomatch h

theorem ofDigits_unsigned (negative : Bool) (digits : Text) :
    (ofDigits negative digits).unsigned = digits := List.append_nil digits

end Numeral

namespace Atom

/-- The parts of a bare atom that is put together from parts. -/
theorem numeral?_bare {n : Numeral} (h : n.WellFormed) {t : Text}
    (hsign : Numeral.splitSign t = (n.negative, n.unsigned)) : (bare t).numeral? = some n :=
  (if_pos rfl).trans (Numeral.parse?_eq_some h hsign)

/-- A bare atom of digits after a sign, or none, is an integer. -/
theorem number?_of_digits {t digits : Text} {n : Nat} (negative : Bool) (run : digits.DigitsOf n)
    (short : digits.length ≤ digitLimit) (hsign : Numeral.splitSign t = (negative, digits)) :
    (bare t).number? = .ok (some (.int (if negative then -n else n))) := by
  have hparts : Numeral.splitSign t = (negative, (Numeral.ofDigits negative digits).unsigned) :=
    hsign.trans (by rw [Numeral.ofDigits_unsigned])
  have hvalue : (Numeral.ofDigits negative digits).value t =
      .ok (.int (if negative then -n else n)) := by
    simp only [Numeral.ofDigits, Numeral.value, Numeral.isInteger, Option.isNone_none,
      Bool.and_self, if_true, if_neg (Nat.not_lt.2 short), run.decimalValue]
  rw [number?, numeral?_bare (Numeral.ofDigits_wellFormed run negative) hparts]
  simp only [bare, hvalue, Except.map]

/-- **A bare atom that spells an integer denotes it.** -/
theorem number?_of_spells {t : Text} {n : Int} (h : t.SpellsInt n) :
    (bare t).number? = .ok (some (.int n)) := by
  cases h with
  | unsigned run short =>
    have hsign := Numeral.splitSign_unsigned (Numeral.ofDigits_wellFormed run false)
    rw [Numeral.ofDigits_unsigned] at hsign
    exact number?_of_digits false run short hsign
  | plus run short => exact number?_of_digits false run short rfl
  | minus run short => exact number?_of_digits true run short rfl

/-- An integer is written in its digits, if they are no more than can be written. -/
theorem ofNumber_int (n : Int) :
    ofNumber (some (.int n)) =
      if (Nat.digits 10 n.natAbs).length ≤ digitLimit then .ok (bare (Text.ofInt n))
      else .error .resultTooLong := by
  have hiff := Nat.digits_length_le_iff (k := digitLimit) (by decide : 1 < 10) n.natAbs
  rw [ofNumber, Number.write, Nat.pow_eq]
  by_cases h : n.natAbs < 10 ^ digitLimit
  · rw [if_pos h, if_pos (hiff.2 h), Except.map]
  · rw [if_neg h, if_neg (mt hiff.1 h), Except.map]

/-- A bare atom that denotes a number is a numeral. -/
theorem isNumeral_of_number? {a : Atom} {x : Number} (h : a.number? = .ok (some x)) :
    a.isNumeral = true := by
  unfold number? at h
  split at h
  · rw [isNumeral, ‹a.numeral? = some _›, Option.isSome_some]
  · cases h

end Atom

end MiniLisp
