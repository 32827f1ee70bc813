import Mathlib.Tactic.IntervalCases
import MiniLisp.Number.Basic
import MiniLisp.Text.Blank

/-!
# Numerals are bare words

The numeral of an arithmetic result is spelt with digits, a point, a sign and an `e` for the
exponent (`Number.write_marks`). None of these is white space or one of the marks that end a word,
so that **every result of arithmetic can be written bare** (`Number.isBareWord_write`).
-/

namespace MiniLisp

open CodePoint (ofChar)

/-- What integers are spelt with, but for a sign. -/
def asciiDigits : Text := "0123456789"

/-- What numerals are spelt with. -/
def numeralMarks : Text := "0123456789.e+-"

theorem isBare_of_mem_numeralMarks : ∀ c ∈ numeralMarks, c.isBare = true := by decide

namespace Text

theorem digit_mem_asciiDigits {c : Char} (h : c.isDigit = true) : ofChar c ∈ asciiDigits := by
  have hlow : 48 ≤ c.toNat ∧ c.toNat ≤ 57 := by
    simpa [Char.isDigit, UInt32.le_iff_toNat_le] using h
  rw [← Char.ofNat_toNat c]
  generalize c.toNat = n at hlow
  obtain ⟨hlow, hhigh⟩ := hlow
  interval_cases n <;> decide

theorem ofNat_ascii (n : Nat) : ∀ c ∈ ofNat n, c ∈ asciiDigits := by
  intro c hc
  obtain ⟨d, hd, rfl⟩ := List.mem_map.1 hc
  exact digit_mem_asciiDigits (Nat.isDigit_of_mem_toDigits (by decide) (by decide) hd)

theorem ofNat_marks (n : Nat) : ∀ c ∈ ofNat n, c ∈ numeralMarks := by
  have hmarks : ∀ c ∈ asciiDigits, c ∈ numeralMarks := by decide
  exact fun c hc => hmarks c (ofNat_ascii n c hc)

theorem ofNat_ne_nil (n : Nat) : ofNat n ≠ [] := by
  intro h
  exact Nat.toDigits_ne_nil (List.map_eq_nil_iff.1 h)

theorem ofInt_marks (n : Int) : ∀ c ∈ ofInt n, c ∈ numeralMarks := by
  cases n with
  | ofNat n => exact ofNat_marks n
  | negSucc n => exact List.forall_mem_cons.2 ⟨by decide, ofNat_marks (n + 1)⟩

theorem ofInt_ne_nil (n : Int) : ofInt n ≠ [] := by
  cases n with
  | ofNat n => exact ofNat_ne_nil n
  | negSucc n => exact List.cons_ne_nil _ _

end Text

namespace DecimalLayout

variable (layout : DecimalLayout) {digits : Text} (point : Int)

/-- A layout adds zeros, a point and an exponent to the digits. -/
theorem write_marks (h : ∀ c ∈ digits, c ∈ numeralMarks) :
    ∀ c ∈ layout.write digits point, c ∈ numeralMarks := by
  have hzero : ofChar '0' ∈ numeralMarks := by decide
  have hzeros (k : Nat) : ∀ c ∈ List.replicate k (ofChar '0'), c ∈ numeralMarks :=
    fun c hc => List.eq_of_mem_replicate hc ▸ hzero
  have htake (k : Nat) : ∀ c ∈ digits.take k, c ∈ numeralMarks :=
    fun c hc => h c (List.mem_of_mem_take hc)
  have hdrop (k : Nat) : ∀ c ∈ digits.drop k, c ∈ numeralMarks :=
    fun c hc => h c (List.mem_of_mem_drop hc)
  have hpoint (k : Nat) : ∀ c ∈ ofChar '.' :: digits.drop k, c ∈ numeralMarks :=
    List.forall_mem_cons.2 ⟨by decide, hdrop k⟩
  rw [write]
  split
  · split
    · exact List.forall_mem_append.2 ⟨List.forall_mem_append.2 ⟨by decide, hzeros _⟩, h⟩
    split
    · exact List.forall_mem_append.2 ⟨List.forall_mem_append.2 ⟨h, hzeros _⟩, by decide⟩
    · exact List.forall_mem_append.2 ⟨htake _, hpoint _⟩
  · simp only [List.forall_mem_append]
    refine ⟨⟨⟨⟨⟨htake _, ?_⟩, by decide⟩, ?_⟩, hzeros _⟩, Text.ofNat_marks _⟩
    · split
      · simp
      · exact hpoint 1
    · split <;> decide

theorem write_ne_nil : layout.write digits point ≠ [] := by
  rw [write]
  repeat' split
  all_goals simp [Text.ofString]

end DecimalLayout

theorem Binary64.toText_marks (x : Binary64) : ∀ c ∈ x.toText, c ∈ numeralMarks := by
  have hsign : ∀ c ∈ (if x.negative then ("-" : Text) else ""), c ∈ numeralMarks := by
    split <;> decide
  rw [toText]
  split
  · exact List.forall_mem_append.2 ⟨hsign, by decide⟩
  · refine List.forall_mem_append.2 ⟨hsign, DecimalLayout.write_marks _ _ ?_⟩
    -- the digits that matter are among all the digits
    intro c hc
    have hmem := (List.dropWhile_sublist _).subset (List.mem_reverse.1 hc)
    exact Text.ofNat_marks _ c (List.mem_reverse.1 hmem)

theorem Binary64.toText_ne_nil (x : Binary64) : x.toText ≠ [] := by
  rw [toText]
  split
  · simp [Text.ofString]
  · exact List.append_ne_nil_of_right_ne_nil _ (DecimalLayout.write_ne_nil _ _)

namespace Number

variable {n : Option Number} {t : Text}

/-- A result is written as an integer that is not too long, or as a double. The integer is the
result, or the double is that integer. -/
theorem write_cases (h : write n = .ok t) :
    (∃ i : Int, t = Text.ofInt i ∧ i.natAbs < 10 ^ digitLimit ∧
      (n = some (.int i) ∨ ∃ x, n = some (.real x) ∧ x.toInt? = some i)) ∨
    ∃ x, t = Binary64.toText x ∧ n = some (.real x) := by
  -- for any exponent, so that no power is computed
  have hbound {i : Int} (k : Nat) (hi : i.natAbs < Nat.pow 10 k) : i.natAbs < 10 ^ k := hi
  have hless : 10 ^ 16 ≤ 10 ^ digitLimit := Nat.pow_le_pow_right (by decide) (by decide)
  unfold write at h
  split at h
  · cases h
  · rename_i i
    split at h
    · cases h
      exact .inl ⟨i, rfl, hbound _ ‹_›, .inl rfl⟩
    · cases h
  · rename_i x
    split at h
    · rename_i i hi
      split at h
      · cases h
        exact .inl ⟨i, rfl, (hbound 16 ‹_›).trans_le hless, .inr ⟨x, rfl, hi⟩⟩
      · cases h
        exact .inr ⟨x, rfl, rfl⟩
    · cases h
      exact .inr ⟨x, rfl, rfl⟩

theorem write_marks (h : write n = .ok t) : ∀ c ∈ t, c ∈ numeralMarks := by
  rcases write_cases h with ⟨i, rfl, -⟩ | ⟨x, rfl, -⟩
  · exact Text.ofInt_marks i
  · exact x.toText_marks

/-- **The numeral of a result is a bare word.** -/
theorem isBareWord_write (h : write n = .ok t) : t.isBareWord = true := by
  have hne : t ≠ [] := by
    rcases write_cases h with ⟨i, rfl, -⟩ | ⟨x, rfl, -⟩
    · exact Text.ofInt_ne_nil i
    · exact x.toText_ne_nil
  have hbare : t.all CodePoint.isBare = true :=
    List.all_eq_true.2 fun c hc => isBare_of_mem_numeralMarks c (write_marks h c hc)
  rw [Text.isBareWord, hbare, Bool.and_true, Bool.not_eq_true', List.isEmpty_eq_false_iff]
  exact hne

end Number

end MiniLisp
