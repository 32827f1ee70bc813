import MiniLisp.Proofs.Text.Quoted

/-!
# Escaped text

A text is escaped before it is written between quotes. Wherever the string then stands, **reading it
from its opening quote gives the text back and ends just after its closing quote**
(`Text.readQuoted_escape`): no code point of the text and none behind the string can change where it
ends. **Escaped text is printable**, so it has no line feed and no other control in it
(`Text.isPrintable_of_mem_escape`).
-/

namespace MiniLisp

open CodePoint (ofChar)

/-! ## Printable code points -/

namespace CodePoint

variable {c : CodePoint}

theorem isPrintable_iff :
    c.isPrintable = true ↔ ∀ range ∈ unprintable.toList, c.val < range.1 ∨ range.2 < c.val := by
  unfold isPrintable
  rw [Bool.not_eq_true', ← Bool.not_eq_true, Ranges.holds_iff]
  constructor
  · intro h range hrange
    by_contra hin
    exact h ⟨range, hrange, by omega, by omega⟩
  · rintro h ⟨range, hrange, hlo, hhi⟩
    have := h range hrange
    omega

/-- From the space up to the tilde everything is printable. -/
theorem isPrintable_of_ascii (h : 0x20 ≤ c.val ∧ c.val < 0x7F) : c.isPrintable = true := by
  have hranges : ∀ range ∈ unprintable.toList, range.2 < 0x20 ∨ 0x7F ≤ range.1 := by decide +kernel
  refine isPrintable_iff.2 fun range hrange => ?_
  have := hranges range hrange
  omega

/-- The controls, those of either table and the delete character, are not printable. -/
theorem not_control_of_isPrintable (h : c.isPrintable = true) :
    0x20 ≤ c.val ∧ ¬ (0x7F ≤ c.val ∧ c.val < 0xA0) := by
  have hfirst := isPrintable_iff.1 h (0x0, 0x1F) (by decide)
  have hsecond := isPrintable_iff.1 h (0x7F, 0xA0) (by decide)
  simp only at hfirst hsecond
  omega

theorem isPrintable_of_hexValue? (h : c.hexValue?.isSome = true) : c.isPrintable = true := by
  refine isPrintable_of_ascii ?_
  unfold hexValue? at h
  split at h
  · omega
  split at h
  · omega
  split at h
  · omega
  · cases h

end CodePoint

/-! ## Escapes are printable -/

namespace Text

theorem isPrintable_of_mem_hex {n : Nat} {c : CodePoint} (h : c ∈ hex n) :
    c.isPrintable = true :=
  CodePoint.isPrintable_of_hexValue? (isSome_of_hexNumber? (hexNumber?_hex n) c h)

theorem isPrintable_of_mem_hexPadded {width n : Nat} {c : CodePoint} (h : c ∈ hexPadded width n) :
    c.isPrintable = true :=
  CodePoint.isPrintable_of_hexValue? (isSome_of_hexNumber? (hexNumber?_hexPadded width n) c h)

end Text

theorem isPrintable_of_escapeLetter? {c letter : CodePoint} (h : escapeLetter? c = some letter) :
    letter.isPrintable = true := by
  have hletters : ∀ entry ∈ namedEscapes, entry.1.isPrintable = true := by decide +kernel
  unfold escapeLetter? at h
  obtain ⟨entry, hfind, rfl⟩ := Option.map_eq_some_iff.1 h
  exact hletters entry (List.mem_of_find?_eq_some hfind)

/-- A code point in writing is printable, whether quotes are escaped or not. -/
theorem CodePoint.isPrintable_of_mem_escape {quotes : Bool} {c d : CodePoint}
    (h : d ∈ c.escape quotes) : d.isPrintable = true := by
  have hbackslash : (ofChar '\\').isPrintable = true := isPrintable_of_ascii (by decide)
  unfold CodePoint.escape at h
  split at h
  · rename_i letter hletter
    -- the escape has a letter, so the code point is not a quote that stays plain
    have hletter' : escapeLetter? c = some letter := by
      split at hletter
      · cases hletter
      · exact hletter
    rcases List.mem_cons.1 h with rfl | h
    · exact hbackslash
    · rw [List.mem_singleton.1 h]
      exact isPrintable_of_escapeLetter? hletter'
  split at h
  · rename_i hprintable
    rw [List.mem_singleton.1 h]
    exact hprintable
  split at h
  · have hmark : ∀ e ∈ Text.ofString "\\x", e.isPrintable = true := by decide +kernel
    rcases List.mem_append.1 h with h | h
    · exact hmark d h
    · exact Text.isPrintable_of_mem_hexPadded h
  · have hopen : ∀ e ∈ Text.ofString "\\u\x7b", e.isPrintable = true := by decide +kernel
    have hclose : ∀ e ∈ Text.ofString "\x7d", e.isPrintable = true := by decide +kernel
    rcases List.mem_append.1 h with h | h
    · rcases List.mem_append.1 h with h | h
      · exact hopen d h
      · exact Text.isPrintable_of_mem_hex h
    · exact hclose d h

namespace Text

/-- **Escaped text is printable.** -/
theorem isPrintable_of_mem_escape {t : Text} {quotes : Bool} {c : CodePoint}
    (h : c ∈ t.escape quotes) : c.isPrintable = true := by
  unfold escape at h
  obtain ⟨d, -, hc⟩ := List.mem_flatMap.1 h
  exact CodePoint.isPrintable_of_mem_escape hc

/-- **Escaping is undone by reading, in any context.** Take a text escaped and between quotes, with
anything before and behind it: reading from just after the opening quote gives exactly the text and
stops just after the closing quote. Everything that stands between the quotes is printable, so no
line feed and no other control is among it. -/
theorem readQuoted_escape (before t rest : Text) :
    let source := before ++ ofChar '"' :: (t.escape true ++ ofChar '"' :: rest)
    let length := (t.escape true).length + 1
    readQuoted (source.drop (before.length + 1)) = .closed t length ∧
      source.take (before.length + 1 + length) = before ++ t.inQuotes ∧
      source.drop (before.length + 1 + length) = rest ∧
      ∀ c ∈ t.escape true, c.isPrintable = true ∧ c ≠ '\n' ∧
        0x20 ≤ c.val ∧ ¬ (0x7F ≤ c.val ∧ c.val < 0xA0) := by
  intro source length
  have hopen : source.drop (before.length + 1) = t.escape true ++ ofChar '"' :: rest := by
    show (before ++ ofChar '"' :: (t.escape true ++ ofChar '"' :: rest)).drop _ = _
    rw [List.drop_append, List.drop_eq_nil_of_le (by omega), Nat.add_sub_cancel_left]
    rfl
  -- the source is cut behind the closing quote
  have hcut : source = (before ++ t.inQuotes) ++ rest := by
    show _ = before ++ (ofChar '"' :: t.escape true ++ [ofChar '"']) ++ rest
    simp [source]
  have hlength : (before ++ t.inQuotes).length = before.length + 1 + length := by
    show (before ++ (ofChar '"' :: t.escape true ++ [ofChar '"'])).length = _
    simp only [List.length_append, List.length_cons, List.length_nil, length]
    omega
  refine ⟨?_, ?_, ?_, fun c hc => ?_⟩
  · rw [hopen]
    exact readQuoted_append (quotes_escape t) rest
  · rw [hcut, ← hlength, List.take_left]
  · rw [hcut, ← hlength, List.drop_left]
  · have hprintable := isPrintable_of_mem_escape hc
    have hcontrol := CodePoint.not_control_of_isPrintable hprintable
    refine ⟨hprintable, ?_, hcontrol⟩
    rintro rfl
    exact absurd hcontrol.1 (by decide)

end Text

end MiniLisp
