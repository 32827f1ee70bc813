import Mathlib.Data.List.Induction
import MiniLisp.Proofs.Text.Quoted

/-!
# Strings that cannot be read

What follows an opening quote is read as far as it is made of plain code points and escapes
(`Quotes.readQuoted_append`). Then comes the closing quote, or the string cannot be read, for one of
two reasons.

* The text ends, maybe with a lone backslash (`readQuoted_unterminated_iff`).
* A backslash comes that starts no escape (`readQuoted_badEscape_iff`). `BadEscape s fault` says of
  the text `s` after the backslash why: it starts with the number of no code point, or with nothing
  that could be an escape.
-/

namespace MiniLisp

open CodePoint (ofChar)

/-- What may follow a backslash and gives a number, whether a code point has it or not. -/
inductive Numbers : Nat → Text → Prop
  | twoDigits {n : Nat} {a b : CodePoint} : Text.hexNumber? [a, b] = some n →
      Numbers n [ofChar 'x', a, b]
  | braced {n : Nat} {digits : Text} : 2 ≤ digits.length → digits.length ≤ 8 →
      Text.hexNumber? digits = some n →
      Numbers n (ofChar 'u' :: ofChar '\x7b' :: (digits ++ [ofChar '\x7d']))

/-- No escape starts where `s` follows a backslash. -/
inductive BadEscape : Text → EscapeFault → Prop
  | outOfRange {n : Nat} {e r : Text} : Numbers n e → 0x110000 ≤ n →
      BadEscape (e ++ r) (.outOfRange (ofChar '\\' :: e))
  | invalid {letter : CodePoint} {s : Text} :
      (∀ e r, letter :: s = e ++ r → (∀ c, ¬ Escapes c e) ∧ ∀ n, ¬ Numbers n e) →
      BadEscape (letter :: s) (.invalid [ofChar '\\', letter])

/-! ## Escapes -/

/-- Hexadecimal digits have a value. -/
theorem Text.exists_hexNumber? {digits : Text} (h : ∀ c ∈ digits, c.hexValue?.isSome = true) :
    ∃ n, hexNumber? digits = some n := by
  induction digits using List.reverseRecOn with
  | nil => exact ⟨0, rfl⟩
  | append_singleton digits c ih =>
    obtain ⟨hdigits, hc⟩ := List.forall_mem_append.1 h
    obtain ⟨n, hn⟩ := ih hdigits
    obtain ⟨d, hd⟩ := Option.isSome_iff_exists.1 (hc c List.mem_cons_self)
    exact ⟨16 * n + d, by rw [hexNumber?_append_singleton, hn, hd]; rfl⟩

/-- The number of a code point names it. -/
theorem Numbers.escapes {n : Nat} {e : Text} (h : Numbers n e) (hn : n < 0x110000) :
    Escapes ⟨n, hn⟩ e := by
  cases h with
  | twoDigits hnum => exact .twoDigits hnum
  | braced hge hle hnum => exact .braced hge hle hnum

theorem Numbers.readEscape_append {n : Nat} {e : Text} (h : Numbers n e) (hn : 0x110000 ≤ n)
    (r : Text) : readEscape (e ++ r) = .error (.outOfRange (ofChar '\\' :: e)) := by
  have hnone : CodePoint.ofNat? n = none := dif_neg (Nat.not_lt.2 hn)
  cases h with
  | @twoDigits a b hnum =>
    have hx : namedCodePoint? (ofChar 'x') = none := rfl
    have ha := Text.isSome_of_hexNumber? hnum a (by simp)
    have hb := Text.isSome_of_hexNumber? hnum b (by simp)
    simp [readEscape, hx, ha, hb, numberedCodePoint, hnum, hnone, Except.map]
  | @braced digits hge hle hnum =>
    have hu : namedCodePoint? (ofChar 'u') = none := rfl
    have hrun : (digits ++ ofChar '\x7d' :: r).takeWhile (fun d => d.hexValue?.isSome) =
        digits := by
      apply takeWhile_append_stop (Text.isSome_of_hexNumber? hnum)
      intro c hc
      cases hc
      rfl
    have hshown : (digits ++ ofChar '\x7d' :: r).take (digits.length + 1) =
        digits ++ [ofChar '\x7d'] := by
      rw [List.take_length_add_append]
      rfl
    simp [readEscape, hu, hrun, hge, hle, numberedCodePoint, hnum, hnone, hshown, Except.map]

/-- If an escape cannot be read and gives no number, the fault names the letter that follows the
backslash. -/
theorem invalid_of_read {letter : CodePoint} {s : Text} {fault : EscapeFault}
    (h : readEscape (letter :: s) = .error fault)
    (hnumber : ∀ e r n, letter :: s = e ++ r → ¬ Numbers n e) :
    fault = .invalid [ofChar '\\', letter] := by
  rw [readEscape] at h
  split at h
  · cases h
  · -- where the reader takes digits, they would be the number that is not there
    simp only at h
    obtain ⟨digits, r, rfl, htake, hdigits, -⟩ := exists_run (fun d => d.hexValue?.isSome) s
    split at h
    · rename_i hx
      obtain ⟨rfl, hlen⟩ := hx
      rw [htake] at hlen
      rcases digits with _ | ⟨a, _ | ⟨b, digits⟩⟩
      · simp at hlen
      · simp at hlen
      · have htwo : ∀ c ∈ [a, b], c.hexValue?.isSome = true :=
          fun c hc => hdigits c (List.mem_of_mem_take (i := 2) hc)
        obtain ⟨n, hn⟩ := Text.exists_hexNumber? htwo
        exact absurd (Numbers.twoDigits hn) (hnumber _ (digits ++ r) n rfl)
    · split at h
      · rename_i hu
        obtain ⟨rfl, hopen, hge, hle, hclose⟩ := hu
        obtain ⟨rest, hrest⟩ := List.head?_eq_some_iff.1 hopen
        rw [hrest] at hge hle hclose hnumber
        obtain ⟨digits, r, rfl, htake, hdigits, -⟩ := exists_run (fun d => d.hexValue?.isSome) rest
        simp only [List.drop_one, List.tail_cons, List.getElem?_cons_succ, htake] at hge hle hclose
        obtain ⟨n, hn⟩ := Text.exists_hexNumber? hdigits
        rw [List.getElem?_append_right (Nat.le_refl _), Nat.sub_self, ← List.head?_eq_getElem?]
          at hclose
        obtain ⟨r, rfl⟩ := List.head?_eq_some_iff.1 hclose
        exact absurd (Numbers.braced hge hle hn) (hnumber _ r n (by simp))
      · cases h
        rfl

/-- **An escape cannot be read exactly where there is none**, for the reason given. -/
theorem readEscape_error_iff {letter : CodePoint} {s : Text} {fault : EscapeFault} :
    readEscape (letter :: s) = .error fault ↔ BadEscape (letter :: s) fault := by
  constructor
  · intro h
    have hescape : ∀ e r c, letter :: s = e ++ r → ¬ Escapes c e := by
      intro e r c hs hc
      rw [hs, readEscape_append hc r] at h
      cases h
    by_cases hnumber : ∃ e r n, letter :: s = e ++ r ∧ Numbers n e
    · obtain ⟨e, r, n, hs, hn⟩ := hnumber
      have hbig : 0x110000 ≤ n := by
        by_contra hsmall
        exact hescape e r _ hs (hn.escapes (Nat.not_le.1 hsmall))
      rw [hs, hn.readEscape_append hbig r] at h
      cases h
      rw [hs]
      exact .outOfRange hn hbig
    · have hnone : ∀ e r n, letter :: s = e ++ r → ¬ Numbers n e :=
        fun e r n hs hn => hnumber ⟨e, r, n, hs, hn⟩
      rw [invalid_of_read h hnone]
      exact .invalid fun e r hs => ⟨fun c => hescape e r c hs, fun n => hnone e r n hs⟩
  · intro h
    generalize hs : letter :: s = text at h
    cases h with
    | outOfRange hn hbig => exact hn.readEscape_append hbig _
    | @invalid letter s hnone =>
      rcases hread : readEscape (letter :: s) with fault | ⟨c, n⟩
      · rw [invalid_of_read hread fun e r n hs => (hnone e r hs).2 n]
      · obtain ⟨e, r, hs, -, hc⟩ := escapes_of_read hread
        exact absurd hc ((hnone e r hs).1 c)

/-! ## Quoted strings -/

/-- The same with a text in front, spelt by `width` code points. -/
def Quoted.prepend (t : Text) (width : Nat) : Quoted → Quoted
  | .closed text length => .closed (t ++ text) (length + width)
  | .unterminated => .unterminated
  | .badEscape before fault => .badEscape (before + width) fault

theorem Quoted.push_prepend (q : Quoted) (c : CodePoint) (t : Text) (width width' : Nat) :
    (q.prepend t width).push c width' = q.prepend (c :: t) (width + width') := by
  cases q <;> simp [prepend, push, Nat.add_assoc]

/-- **What may stand between quotes is read**, whatever becomes of the rest. -/
theorem Quotes.readQuoted_append {t u : Text} (h : Quotes t u) (s : Text) :
    readQuoted (u ++ s) = (readQuoted s).prepend t u.length := by
  induction h with
  | nil =>
    rw [List.nil_append]
    cases readQuoted s <;> rfl
  | @plain c t u hq hb _ ih =>
    rw [List.cons_append, readQuoted, if_neg hq, if_neg hb, ih, Quoted.push_prepend]
    rfl
  | @escape c e t u he _ ih =>
    have hread := readEscape_append he (u ++ s)
    have hne : (e ++ (u ++ s)).isEmpty = false := by cases he <;> rfl
    have hlen : u.length + (e.length + 1) = (ofChar '\\' :: (e ++ u)).length := by
      rw [List.length_cons, List.length_append]
      omega
    rw [List.cons_append, List.append_assoc, readQuoted, if_neg (by simp), if_pos rfl, hne]
    simp only [Bool.false_eq_true, if_false, hread, List.drop_left, ih, Quoted.push_prepend, hlen]

theorem Quoted.push_eq_unterminated {q : Quoted} {c : CodePoint} {width : Nat}
    (h : q.push c width = .unterminated) : q = .unterminated := by
  cases q with
  | unterminated => rfl
  | _ => cases h

theorem Quoted.push_eq_badEscape {q : Quoted} {c : CodePoint} {width n : Nat} {fault : EscapeFault}
    (h : q.push c width = .badEscape n fault) :
    ∃ m, q = .badEscape m fault ∧ n = m + width := by
  cases q with
  | badEscape m fault => cases h; exact ⟨m, rfl, rfl⟩
  | _ => cases h

/-- **A string has no end exactly if the text ends before a closing quote**, all escapes up to there
being sound. -/
theorem readQuoted_unterminated_iff {s : Text} :
    readQuoted s = .unterminated ↔ ∃ t u, Quotes t u ∧ (s = u ∨ s = u ++ [ofChar '\\']) := by
  constructor
  · intro h
    fun_induction readQuoted s with
    | case1 => exact ⟨[], [], .nil, .inl rfl⟩
    | case2 => cases h
    | case3 rest hempty =>
      rw [List.isEmpty_iff.1 hempty]
      exact ⟨[], [], .nil, .inr rfl⟩
    | case4 rest _ d length he _ ih =>
      obtain ⟨t, u, hu, hrest⟩ := ih (Quoted.push_eq_unterminated h)
      obtain ⟨e, r, rfl, rfl, hesc⟩ := escapes_of_read he
      rw [List.drop_left] at hrest
      refine ⟨_, _, .escape hesc hu, ?_⟩
      rcases hrest with rfl | rfl
      · exact .inl rfl
      · exact .inr (by simp)
    | case5 => cases h
    | case6 c rest hq hb ih =>
      obtain ⟨t, u, hu, hrest⟩ := ih (Quoted.push_eq_unterminated h)
      refine ⟨_, _, .plain hq hb hu, ?_⟩
      rcases hrest with rfl | rfl
      · exact .inl rfl
      · exact .inr rfl
  · rintro ⟨t, u, hu, rfl | rfl⟩
    · have := hu.readQuoted_append []
      rw [List.append_nil] at this
      rw [this, readQuoted]
      rfl
    · rw [hu.readQuoted_append, readQuoted]
      rfl

/-- **An escape cannot be read exactly if it is the first that is none.** -/
theorem readQuoted_badEscape_iff {s : Text} {n : Nat} {fault : EscapeFault} :
    readQuoted s = .badEscape n fault ↔ ∃ t u r, Quotes t u ∧ s = u ++ ofChar '\\' :: r ∧
      n = u.length ∧ BadEscape r fault := by
  constructor
  · intro h
    fun_induction readQuoted s generalizing n with
    | case1 => cases h
    | case2 => cases h
    | case3 => cases h
    | case4 rest _ d length he _ ih =>
      obtain ⟨m, hread, rfl⟩ := Quoted.push_eq_badEscape h
      obtain ⟨t, u, r, hu, hrest, rfl, hr⟩ := ih hread
      obtain ⟨e, r', rfl, rfl, hesc⟩ := escapes_of_read he
      rw [List.drop_left] at hrest
      subst hrest
      refine ⟨_, _, r, .escape hesc hu, by simp, ?_, hr⟩
      simp only [List.length_cons, List.length_append]
      omega
    | case5 rest hne fault' hread =>
      cases h
      obtain ⟨letter, s, rfl⟩ := List.exists_cons_of_ne_nil (by simpa using hne)
      exact ⟨[], [], _, .nil, rfl, rfl, readEscape_error_iff.1 hread⟩
    | case6 c rest hq hb ih =>
      obtain ⟨m, hread, rfl⟩ := Quoted.push_eq_badEscape h
      obtain ⟨t, u, r, hu, rfl, rfl, hr⟩ := ih hread
      exact ⟨_, _, r, .plain hq hb hu, rfl, rfl, hr⟩
  · rintro ⟨t, u, r, hu, rfl, rfl, hr⟩
    obtain ⟨letter, s, rfl⟩ : ∃ letter s, r = letter :: s := by
      cases hr with
      | outOfRange hn _ => cases hn <;> exact ⟨_, _, rfl⟩
      | invalid _ => exact ⟨_, _, rfl⟩
    have hread := readEscape_error_iff.2 hr
    rw [hu.readQuoted_append, readQuoted]
    simp [hread, Quoted.prepend]

end MiniLisp
