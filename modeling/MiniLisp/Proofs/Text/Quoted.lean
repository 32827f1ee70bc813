import Mathlib.Algebra.Group.Nat.Defs
import Mathlib.Data.List.Basic
import MiniLisp.Atom

/-!
# Quoted and guarded strings

Two ways to say what stands between the marks of a string, one for each kind.

* `Escapes c u`: `u` may follow a backslash and stands for `c`. `Quotes t u`: `u` between quotes
  reads as `t`. Reading finds exactly such a `u` (`readQuoted_append`, `quotes_of_read`), whatever
  follows the closing quote.
* A guarded string ends at the first `"#`, so its text is any that holds none
  (`guardEnd?_append`, `guardEnd?_some`, `guardEnd?_none_iff`).

**Escaping is undone by reading**: `quotes_escape`, for every text, surrogates included. Behind it,
the hexadecimal digits of a number read as that number (`hexNumber?_hex`).
-/

namespace MiniLisp

open CodePoint (ofChar)

@[simp] theorem CodePoint.ofChar_inj {a b : Char} :
    CodePoint.ofChar a = CodePoint.ofChar b ↔ a = b := by
  constructor
  · intro h
    exact Char.toNat_inj.1 (CodePoint.mk.inj h)
  · intro h
    rw [h]

/-- A run of code points with a property, in front of one without it, is the longest such run. -/
theorem takeWhile_append_stop {p : CodePoint → Bool} {t s : Text} (ht : ∀ c ∈ t, p c = true)
    (hs : ∀ c, s.head? = some c → p c = false) : (t ++ s).takeWhile p = t := by
  rw [List.takeWhile_append_of_pos ht]
  cases s with
  | nil => simp
  | cons c s => simp [hs c rfl]

/-- The longest run of code points with a property cuts a text in two. -/
theorem exists_run (p : CodePoint → Bool) (s : Text) :
    ∃ t r, s = t ++ r ∧ s.takeWhile p = t ∧ (∀ c ∈ t, p c = true) ∧
      ∀ c, r.head? = some c → p c = false := by
  refine ⟨s.takeWhile p, s.dropWhile p, List.takeWhile_append_dropWhile.symm, rfl, ?_, ?_⟩
  · exact List.all_eq_true.1 List.all_takeWhile
  · intro c hc
    have := List.head?_dropWhile_not p s
    rwa [hc] at this

/-! ## Hexadecimal numbers -/

namespace Text

theorem hexNumber?_append_singleton (digits : Text) (c : CodePoint) :
    hexNumber? (digits ++ [c]) =
      (hexNumber? digits).bind fun n => c.hexValue?.map (16 * n + ·) := by
  simp only [hexNumber?, List.foldlM_append, List.foldlM_cons, List.foldlM_nil]
  cases digits.foldlM (fun n c => (c.hexValue?).map (16 * n + ·)) 0 <;> simp

theorem hexValue?_digitChar {k : Nat} (hk : k < 16) :
    (CodePoint.ofChar k.digitChar).hexValue? = some k := by
  have key : ∀ k < 16, (CodePoint.ofChar k.digitChar).hexValue? = some k := by decide
  exact key k hk

/-- The digits of a number read as the number. -/
theorem hexNumber?_hex (n : Nat) : hexNumber? (hex n) = some n := by
  induction n using Nat.strongRecOn with
  | _ n ih =>
  by_cases h : n < 16
  · have hd : hex n = [CodePoint.ofChar n.digitChar] := by
      simp [hex, Nat.toDigits_of_lt_base h]
    rw [hd]
    simp [hexNumber?, hexValue?_digitChar h]
  · have hd : hex n = hex (n / 16) ++ [CodePoint.ofChar (n % 16).digitChar] := by
      simp [hex, Nat.toDigits_of_base_le (by decide : 1 < 16) (Nat.not_lt.1 h)]
    have hq : n / 16 < n := by omega
    rw [hd, hexNumber?_append_singleton, ih _ hq, hexValue?_digitChar (Nat.mod_lt n (by decide))]
    simp [Nat.div_add_mod]

/-- Zeros on the left do not change a number. -/
theorem hexNumber?_hexPadded (width n : Nat) : hexNumber? (hexPadded width n) = some n := by
  have zeros (k : Nat) (t : Text) :
      hexNumber? (List.replicate k (CodePoint.ofChar '0') ++ t) = hexNumber? t := by
    induction k with
    | zero => rfl
    | succ k ih =>
      rw [← ih]
      rfl
  rw [hexPadded, zeros, hexNumber?_hex]

theorem length_hex_le_iff {n k : Nat} (hk : 0 < k) : (hex n).length ≤ k ↔ n < 16 ^ k := by
  rw [hex, List.length_map, Nat.length_toDigits_le_iff (by decide) hk]

/-- A run of digits that has a value consists of hexadecimal digits. -/
theorem isSome_of_hexNumber? {digits : Text} {n : Nat} (h : hexNumber? digits = some n) :
    ∀ c ∈ digits, c.hexValue?.isSome = true := by
  have key (m : Nat) (digits : Text) (n : Nat)
      (h : digits.foldlM (fun n c => (c.hexValue?).map (16 * n + ·)) m = some n) :
      ∀ c ∈ digits, c.hexValue?.isSome = true := by
    induction digits generalizing m with
    | nil => simp
    | cons c digits ih =>
      rw [List.foldlM_cons] at h
      cases hc : c.hexValue? with
      | none => simp [hc] at h
      | some k =>
        simp only [hc, Option.map_some, Option.bind_eq_bind, Option.bind_some] at h
        intro c' hc'
        rcases List.mem_cons.1 hc' with rfl | hmem
        · rw [hc]; rfl
        · exact ih _ h c' hmem
  exact key 0 digits n h

end Text

/-! ## Quoted strings -/

/-- What may follow a backslash and stands for a code point. -/
inductive Escapes : CodePoint → Text → Prop
  | named {letter c : CodePoint} : namedCodePoint? letter = some c → Escapes c [letter]
  | twoDigits {c a b : CodePoint} : Text.hexNumber? [a, b] = some c.val → Escapes c ['x', a, b]
  | braced {c : CodePoint} {digits : Text} : 2 ≤ digits.length → digits.length ≤ 8 →
      Text.hexNumber? digits = some c.val →
      Escapes c ('u' :: '\x7b' :: (digits ++ [CodePoint.ofChar '\x7d']))

/-- What may stand between quotes and reads as a text. -/
inductive Quotes : Text → Text → Prop
  | nil : Quotes [] []
  | plain {c : CodePoint} {t u : Text} : c ≠ '"' → c ≠ '\\' → Quotes t u →
      Quotes (c :: t) (c :: u)
  | escape {c : CodePoint} {e t u : Text} : Escapes c e → Quotes t u →
      Quotes (c :: t) ('\\' :: (e ++ u))

theorem numberedCodePoint_eq_ok {digits shown : Text} {c : CodePoint} :
    numberedCodePoint digits shown = .ok c ↔ Text.hexNumber? digits = some c.val := by
  have hc : CodePoint.ofNat? c.val = some c := by simp [CodePoint.ofNat?, c.lt]
  unfold numberedCodePoint
  cases hn : Text.hexNumber? digits with
  | none => simp
  | some n =>
    simp only [Option.bind_some, Option.some.injEq]
    constructor
    · intro h
      split at h
      · rename_i c' hc'
        cases h
        unfold CodePoint.ofNat? at hc'
        split at hc'
        · cases hc'; rfl
        · cases hc'
      · cases h
    · rintro rfl
      simp [hc]

/-- An escape is read whole, whatever follows it. -/
theorem readEscape_append {c : CodePoint} {u : Text} (h : Escapes c u) (s : Text) :
    readEscape (u ++ s) = .ok (c, u.length) := by
  cases h with
  | named hn => simp [readEscape, hn]
  | @twoDigits c a b hnum =>
    have hx : namedCodePoint? (CodePoint.ofChar 'x') = none := rfl
    have ha := Text.isSome_of_hexNumber? hnum a (by simp)
    have hb := Text.isSome_of_hexNumber? hnum b (by simp)
    simp [readEscape, hx, ha, hb, numberedCodePoint_eq_ok.2 hnum, Except.map]
  | @braced c digits hle hge hnum =>
    have hu : namedCodePoint? (CodePoint.ofChar 'u') = none := rfl
    have hrun : (digits ++ CodePoint.ofChar '\x7d' :: s).takeWhile (fun d => d.hexValue?.isSome) =
        digits := by
      apply takeWhile_append_stop (Text.isSome_of_hexNumber? hnum)
      intro c hc
      cases hc
      rfl
    simp [readEscape, hu, hrun, hle, hge, numberedCodePoint_eq_ok.2 hnum, Except.map]

theorem hexNumber?_of_map {digits shown : Text} {c : CodePoint} {k n : Nat}
    (h : (numberedCodePoint digits shown).map (·, k) = .ok (c, n)) :
    Text.hexNumber? digits = some c.val ∧ n = k := by
  cases hnum : numberedCodePoint digits shown with
  | error => rw [hnum] at h; cases h
  | ok c' =>
    rw [hnum] at h
    cases h
    exact ⟨numberedCodePoint_eq_ok.1 hnum, rfl⟩

/-- An escape that is read is one, and the code points that it takes are its own. -/
theorem escapes_of_read {s : Text} {c : CodePoint} {n : Nat} (h : readEscape s = .ok (c, n)) :
    ∃ u r, s = u ++ r ∧ n = u.length ∧ Escapes c u := by
  cases s with
  | nil => cases h
  | cons letter rest =>
    rw [readEscape] at h
    split at h
    · rename_i c' hn
      cases h
      exact ⟨[letter], rest, rfl, rfl, .named hn⟩
    · simp only at h
      split at h
      · rename_i hx
        obtain ⟨rfl, hlen⟩ := hx
        obtain ⟨digits, r, rfl, htake, -, -⟩ := exists_run (fun d => d.hexValue?.isSome) rest
        rw [htake] at h hlen
        rcases digits with _ | ⟨a, _ | ⟨b, digits⟩⟩
        · simp at hlen
        · simp at hlen
        · obtain ⟨hnum, rfl⟩ := hexNumber?_of_map h
          exact ⟨_, digits ++ r, rfl, rfl, .twoDigits hnum⟩
      · split at h
        · rename_i hu
          obtain ⟨rfl, hopen, hle, hge, hclose⟩ := hu
          obtain ⟨rest, rfl⟩ := List.head?_eq_some_iff.1 hopen
          obtain ⟨digits, r, rfl, htake, -, -⟩ := exists_run (fun d => d.hexValue?.isSome) rest
          simp only [List.drop_one, List.tail_cons, List.getElem?_cons_succ, htake]
            at h hle hge hclose
          obtain ⟨hnum, rfl⟩ := hexNumber?_of_map h
          -- the closing brace stands right after the digits
          rw [List.getElem?_append_right (Nat.le_refl _), Nat.sub_self, ← List.head?_eq_getElem?]
            at hclose
          obtain ⟨r, rfl⟩ := List.head?_eq_some_iff.1 hclose
          exact ⟨_, r, by simp, by simp, .braced hle hge hnum⟩
        · cases h

theorem Quoted.push_eq_closed {q : Quoted} {c : CodePoint} {width n : Nat} {t : Text}
    (h : q.push c width = .closed t n) :
    ∃ t' m, q = .closed t' m ∧ t = c :: t' ∧ n = m + width := by
  cases q with
  | closed t' m => cases h; exact ⟨t', m, rfl, rfl, rfl⟩
  | unterminated => cases h
  | badEscape => cases h

/-- A string between quotes is read up to its closing quote, whatever follows. -/
theorem readQuoted_append {t u : Text} (h : Quotes t u) (s : Text) :
    readQuoted (u ++ ofChar '"' :: s) = .closed t (u.length + 1) := by
  induction h with
  | nil => simp [readQuoted]
  | plain hq hb _ ih => simp [readQuoted, hq, hb, ih, Quoted.push]
  | @escape c e t u he _ ih =>
    have hread := readEscape_append he (u ++ ofChar '"' :: s)
    have hne : e ≠ [] := by cases he <;> simp
    rw [List.cons_append, List.append_assoc, readQuoted]
    simp [hread, hne, ih, Quoted.push]
    omega

theorem quotes_of_read {s t : Text} {n : Nat} (h : readQuoted s = .closed t n) :
    ∃ u r, s = u ++ ofChar '"' :: r ∧ n = u.length + 1 ∧ Quotes t u := by
  fun_induction readQuoted s generalizing t n with
  | case1 => cases h
  | case2 rest =>
    cases h
    exact ⟨[], rest, rfl, rfl, .nil⟩
  | case3 => cases h
  | case4 rest _ d length he _ ih =>
    obtain ⟨t', m, hread, rfl, rfl⟩ := Quoted.push_eq_closed h
    obtain ⟨u, r, hrest, rfl, hu⟩ := ih hread
    obtain ⟨e, r', rfl, rfl, hesc⟩ := escapes_of_read he
    rw [List.drop_left] at hrest
    subst hrest
    refine ⟨ofChar '\\' :: (e ++ u), r, by simp, ?_, .escape hesc hu⟩
    simp only [List.length_cons, List.length_append]
    omega
  | case5 => cases h
  | case6 c rest hq hb ih =>
    obtain ⟨t', m, hread, rfl, rfl⟩ := Quoted.push_eq_closed h
    obtain ⟨u, r, rfl, rfl, hu⟩ := ih hread
    exact ⟨c :: u, r, rfl, rfl, .plain hq hb hu⟩

/-! ## Escaping -/

theorem escapeLetter?_some {c letter : CodePoint} (h : escapeLetter? c = some letter) :
    namedCodePoint? letter = some c := by
  have key : ∀ entry ∈ namedEscapes, namedCodePoint? entry.1 = some entry.2 := by decide
  obtain ⟨entry, hfind, rfl⟩ := Option.map_eq_some_iff.1 h
  have hc : entry.2 = c := by simpa using List.find?_some hfind
  rw [← hc]
  exact key entry (List.mem_of_find?_eq_some hfind)

theorem length_hexPadded_two {n : Nat} (h : n < 0x100) : (Text.hexPadded 2 n).length = 2 := by
  have hle : (Text.hex n).length ≤ 2 := (Text.length_hex_le_iff (by decide)).2 h
  simp only [Text.hexPadded, List.length_append, List.length_replicate]
  omega

/-- A code point as it is written between quotes reads as itself. -/
theorem quotes_escape_cons (c : CodePoint) {t u : Text} (h : Quotes t u) :
    Quotes (c :: t) (c.escape true ++ u) := by
  unfold CodePoint.escape
  simp only [Bool.not_true, Bool.and_false, Bool.false_eq_true, ↓reduceIte]
  split
  · rename_i letter hl
    exact .escape (.named (escapeLetter?_some hl)) h
  · rename_i hl
    split
    · -- the quote and the backslash have letters, so neither is written as it is
      have hq : c ≠ ofChar '"' := by rintro rfl; cases hl
      have hb : c ≠ ofChar '\\' := by rintro rfl; cases hl
      exact .plain hq hb h
    · split
      · rename_i hsmall
        have hnum := Text.hexNumber?_hexPadded 2 c.val
        obtain ⟨a, b, hab⟩ := List.length_eq_two.1 (length_hexPadded_two hsmall)
        rw [hab] at hnum ⊢
        exact .escape (.twoDigits hnum) h
      · rename_i hbig
        -- the braces ask for two digits at least and eight at most
        have hnum := Text.hexNumber?_hex c.val
        have hlt := c.lt
        have hge : ¬ (Text.hex c.val).length ≤ 1 := by
          rw [Text.length_hex_le_iff (by decide)]; omega
        have hle : (Text.hex c.val).length ≤ 8 := by
          rw [Text.length_hex_le_iff (by decide)]; omega
        have hesc := Quotes.escape (.braced (by omega) hle hnum) h
        have hwritten : Text.ofString "\\u\x7b" ++ Text.hex c.val ++ Text.ofString "\x7d" =
            ofChar '\\' :: ofChar 'u' :: ofChar '\x7b' :: (Text.hex c.val ++ [ofChar '\x7d']) := rfl
        rw [hwritten]
        exact hesc

/-- **Escaping is undone by reading.** -/
theorem quotes_escape (t : Text) : Quotes t (Text.escape t true) := by
  induction t with
  | nil => exact .nil
  | cons c t ih => exact quotes_escape_cons c ih

/-! ## Guarded strings -/

theorem guardEnd?_append {t : Text} (h : guardEnd? t = none) (s : Text) :
    guardEnd? (t ++ ofChar '"' :: ofChar '#' :: s) = some t.length := by
  induction t with
  | nil => simp [guardEnd?]
  | cons c t ih =>
    rw [guardEnd?] at h
    split at h
    · cases h
    · rename_i hne
      -- behind the last code point of the text comes a quote, so no mark ends across the border
      have hne' : ¬ (c = ofChar '"' ∧
          (t ++ ofChar '"' :: ofChar '#' :: s).head? = some (ofChar '#')) := by
        rintro ⟨hc, hh⟩
        cases t with
        | nil => simp at hh
        | cons c' t => exact hne ⟨hc, hh⟩
      rw [List.cons_append, guardEnd?, if_neg hne', ih (Option.map_eq_none_iff.1 h)]
      simp

theorem guardEnd?_some {s : Text} {n : Nat} (h : guardEnd? s = some n) :
    ∃ t r, s = t ++ ofChar '"' :: ofChar '#' :: r ∧ n = t.length ∧ guardEnd? t = none := by
  induction s generalizing n with
  | nil => cases h
  | cons c s ih =>
    rw [guardEnd?] at h
    split at h
    · rename_i hc
      cases h
      obtain ⟨rfl, hh⟩ := hc
      obtain ⟨r, rfl⟩ := List.head?_eq_some_iff.1 hh
      exact ⟨[], r, rfl, rfl, rfl⟩
    · rename_i hne
      obtain ⟨m, hm, rfl⟩ := Option.map_eq_some_iff.1 h
      obtain ⟨t, r, rfl, rfl, ht⟩ := ih hm
      refine ⟨c :: t, r, rfl, rfl, ?_⟩
      have hne' : ¬ (c = ofChar '"' ∧ t.head? = some (ofChar '#')) := by
        rintro ⟨hc, hh⟩
        obtain ⟨t', rfl⟩ := List.head?_eq_some_iff.1 hh
        exact hne ⟨hc, rfl⟩
      rw [guardEnd?, if_neg hne', ht]
      rfl

/-- No `"#` is found exactly where there is none. -/
theorem guardEnd?_none_iff {t : Text} :
    guardEnd? t = none ↔ ¬ [ofChar '"', ofChar '#'] <:+: t := by
  constructor
  · rintro h ⟨s, r, rfl⟩
    rw [List.append_assoc] at h
    induction s with
    | nil => simp [guardEnd?] at h
    | cons c s ih =>
      rw [List.cons_append, guardEnd?] at h
      split at h
      · cases h
      · exact ih (Option.map_eq_none_iff.1 h)
  · intro h
    cases hn : guardEnd? t with
    | none => rfl
    | some n =>
      obtain ⟨u, r, rfl, -, -⟩ := guardEnd?_some hn
      exact absurd ⟨u, r, by simp⟩ h

end MiniLisp
