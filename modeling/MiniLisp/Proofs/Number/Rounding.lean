import Mathlib.Algebra.Order.Group.Nat
import Mathlib.Data.Nat.Basic
import MiniLisp.Number.Decimal

/-!
# Rounding depends on the value alone

The double nearest to a ratio is the same for every way to write the ratio as a fraction
(`Binary64.ofRatio_congr`), and the double nearest to a decimal number is the same for every way to
spread it over coefficient and exponent (`Binary64.ofDecimal_scale`). A double is the one nearest to
its own magnitude (`Binary64.round_magnitude`).
-/

namespace MiniLisp

theorem roundDiv_scale (n d : Nat) {k : Nat} (hk : 0 < k) :
    roundDiv (n * k) (d * k) = roundDiv n d := by
  have hdouble : 2 * (n % d * k) = 2 * (n % d) * k := (Nat.mul_assoc _ _ _).symm
  simp only [roundDiv, Nat.mul_div_mul_right _ _ hk, Nat.mul_mod_mul_right, hdouble,
    Nat.mul_lt_mul_right hk, Nat.mul_right_cancel_iff hk]

theorem roundDiv_mul_self (n : Nat) {d : Nat} (hd : 0 < d) : roundDiv (n * d) d = n := by
  simp [roundDiv, Nat.mul_div_cancel n hd, hd]

namespace Binary64

theorem round_scale (negative : Bool) (n d : Nat) {k : Nat} (hk : 0 < k) :
    round negative (n * k) (d * k) = round negative n d := by
  simp only [round, Nat.mul_div_mul_right _ _ hk, Nat.mul_right_comm d k, roundDiv_scale _ _ hk]

/-- Equal ratios have the same nearest double. -/
theorem ofRatio_congr (negative : Bool) {n d n' d' : Nat} (hd : 0 < d) (hd' : 0 < d')
    (h : n * d' = n' * d) : ofRatio negative n d = ofRatio negative n' d' := by
  have hunits : n * unit * d' = n' * unit * d := by
    rw [Nat.mul_right_comm, h, Nat.mul_right_comm]
  rw [ofRatio, ofRatio, ← round_scale _ _ d hd', ← round_scale _ _ d' hd, hunits, Nat.mul_comm d d']

/-! ## Doubles are their own rounding -/

/-- The magnitude of a double determines its exponent. -/
theorem log2_magnitude (x : Binary64) : x.magnitude.log2 - 52 = x.exponent := by
  obtain ⟨hlt, hfull, -⟩ := x.canonical
  have hmagnitude : x.magnitude = x.mantissa * 2 ^ x.exponent := rfl
  rw [hmagnitude]
  have hleast : leastFull = 2 ^ 52 := rfl
  rcases hfull with hfull | hzero
  · -- a mantissa of full length has 53 bits
    have hne : x.mantissa * 2 ^ x.exponent ≠ 0 :=
      Nat.mul_ne_zero (by omega) (Nat.two_pow_pos _).ne'
    have hlog : (x.mantissa * 2 ^ x.exponent).log2 = 52 + x.exponent := by
      rw [Nat.log2_eq_iff hne, Nat.pow_add, Nat.add_right_comm, Nat.pow_add]
      exact ⟨Nat.mul_le_mul_right _ (hleast ▸ hfull),
        Nat.mul_lt_mul_of_pos_right (by omega) (Nat.two_pow_pos _)⟩
    omega
  · rw [hzero, Nat.pow_zero, Nat.mul_one]
    by_cases hne : x.mantissa = 0
    · rw [hne]; rfl
    · have hlog := (Nat.log2_lt hne).2 (by omega : x.mantissa < 2 ^ 53)
      omega

/-- **A double is the double nearest to its magnitude.** -/
theorem round_magnitude (x : Binary64) : round x.negative x.magnitude 1 = some x := by
  have hmantissa : roundDiv x.magnitude (1 * Nat.pow 2 x.exponent) = x.mantissa := by
    rw [Nat.one_mul]
    exact roundDiv_mul_self _ (Nat.two_pow_pos _)
  have hne : x.mantissa ≠ 2 * leastFull := x.canonical.1.ne
  simp only [round, Nat.div_one, log2_magnitude, hmantissa, if_neg hne]
  exact dif_pos x.canonical

/-! ## Decimal numbers -/

theorem decimalLength_mul_ten {n : Nat} (hn : n ≠ 0) :
    decimalLength (n * 10) = decimalLength n + 1 := by
  have hdigits : Nat.toDigits 10 n ++ Nat.toDigits 10 0 = Nat.toDigits 10 (10 * n + 0) :=
    Nat.toDigits_append_toDigits (by decide) (Nat.pos_of_ne_zero hn) (by decide)
  rw [decimalLength, decimalLength, if_neg hn, if_neg (by omega), Nat.mul_comm,
    ← Nat.add_zero (10 * n), ← hdigits, List.length_append]
  rfl

theorem decimalLength_scale {n : Nat} (hn : n ≠ 0) (k : Nat) :
    decimalLength (n * 10 ^ k) = decimalLength n + k := by
  induction k with
  | zero => simp
  | succ k ih =>
    rw [Nat.pow_succ, ← Nat.mul_assoc,
      decimalLength_mul_ten (Nat.mul_ne_zero hn (Nat.pow_pos (by decide)).ne'), ih]
    rfl

/-- A decimal number that is neither too large nor too small, as a fraction. -/
theorem ofDecimal_eq (negative : Bool) (x : Decimal) :
    ofDecimal negative x =
      if x.coefficient = 0 ∨ decimalLength x.coefficient + x.exponent < -400 then
        some (zero negative)
      else if 400 < decimalLength x.coefficient + x.exponent then none
      else ofRatio negative (x.coefficient * 10 ^ x.exponent.toNat) (10 ^ (-x.exponent).toNat) := by
  rw [ofDecimal]
  by_cases hexponent : 0 ≤ x.exponent
  · have hnone : (-x.exponent).toNat = 0 := by omega
    rw [if_pos hexponent, hnone]
    rfl
  · have hnone : x.exponent.toNat = 0 := by omega
    rw [if_neg hexponent, hnone, Nat.pow_zero, Nat.mul_one]
    rfl

theorem ofDecimal_zero (negative : Bool) (e : Int) :
    ofDecimal negative ⟨0, e⟩ = some (zero negative) := by
  rw [ofDecimal_eq, if_pos (.inl rfl)]

/-- **A power of ten may stand in the coefficient or in the exponent.** -/
theorem ofDecimal_scale (negative : Bool) (c k : Nat) (e : Int) :
    ofDecimal negative ⟨c * 10 ^ k, e - k⟩ = ofDecimal negative ⟨c, e⟩ := by
  by_cases hc : c = 0
  · subst hc
    simp only [Nat.zero_mul, ofDecimal_zero]
  have hck : c * 10 ^ k ≠ 0 := Nat.mul_ne_zero hc (Nat.pow_pos (by decide)).ne'
  have hpoint : (decimalLength (c * 10 ^ k) : Int) + (e - k) = decimalLength c + e := by
    rw [decimalLength_scale hc]
    omega
  have hratio : ofRatio negative (c * 10 ^ k * 10 ^ (e - k).toNat) (10 ^ (-(e - k)).toNat) =
      ofRatio negative (c * 10 ^ e.toNat) (10 ^ (-e).toNat) := by
    refine ofRatio_congr negative (Nat.pow_pos (by decide)) (Nat.pow_pos (by decide)) ?_
    have hpowers : k + (e - k).toNat + (-e).toNat = e.toNat + (-(e - k)).toNat := by omega
    rw [Nat.mul_assoc c, Nat.mul_assoc c, Nat.mul_assoc c, ← Nat.pow_add, ← Nat.pow_add, hpowers,
      Nat.pow_add]
  simp only [ofDecimal_eq, hpoint, hc, hck, hratio]

end Binary64

end MiniLisp
