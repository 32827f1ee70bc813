import Mathlib.Data.List.Basic
import MiniLisp.Text.Locator
import MiniLisp.Text.Utf8

/-!
# The tables give the plain position

`Position.of u` counts the position at the end of `u` from scratch: its bytes, its line feeds, and
the code points since the last of them. **A locator gives this position for every place of its
text** (`Locator.locate_counts`), whether it counts bytes by a table or not.

* `Text.StartsLine t i u`: the part `u` of `t` ends where line `i` starts, counted from zero. The
  table of line starts has the lengths of exactly these parts (`Text.exists_startsLine`,
  `Text.length_lineStarts`).
* `bisectRight_eq`: bisection finds where a table passes `x`.
* `Text.lineBytes_eq`: the second table has the bytes of the parts whose lengths the first one has.
-/

namespace MiniLisp

open CodePoint (ofChar)

/-! ## Bisection -/

/-- Bisection finds the number `m` of entries that are at most `x`, if these are the first `m`. -/
theorem bisectRight_eq {table : Array Nat} {x m : Nat}
    (hm : ∀ i (hi : i < table.size), table[i] ≤ x ↔ i < m) {low high : Nat}
    (h : high ≤ table.size) (hlow : low ≤ m) (hhigh : m ≤ high) :
    bisectRight table x low high h = m := by
  fun_induction bisectRight table x low high h with
  | case1 low high h hlt mid hmid hx ih =>
    have hmid' := hm mid hmid
    exact ih hlow (by omega)
  | case2 low high h hlt mid hmid hx ih =>
    have hmid' := hm mid hmid
    exact ih (by omega) hhigh
  | case3 low high h hge => omega

namespace Text

/-! ## Line starts -/

/-- The text `u` is the part of `t` before its line `i`, the first line being line zero. -/
structure StartsLine (t : Text) (i : Nat) (u : Text) : Prop where
  isPrefix : u <+: t
  count_eq : u.count (ofChar '\n') = i
  line_end : u = [] ∨ ∃ v, u = v ++ [ofChar '\n']

theorem length_laterLines (k : Nat) (t : Text) :
    (laterLines k t).length = t.count (ofChar '\n') := by
  induction t generalizing k with
  | nil => rfl
  | cons c t ih =>
    by_cases hc : c = ofChar '\n'
    · simp [laterLines, hc, ih]
    · simp [laterLines, hc, ih]

theorem length_lineStarts (t : Text) : t.lineStarts.length = t.count (ofChar '\n') + 1 := by
  rw [lineStarts, List.length_cons, length_laterLines]

/-- Every further line starts after a line feed. -/
theorem exists_of_laterLines {k i s : Nat} {t : Text} (h : (laterLines k t)[i]? = some s) :
    ∃ u r, t = u ++ ofChar '\n' :: r ∧ u.count (ofChar '\n') = i ∧ s = k + u.length + 1 := by
  induction t generalizing k i with
  | nil => cases h
  | cons c t ih =>
    rw [laterLines] at h
    split at h
    · rename_i hc
      cases i with
      | zero =>
        obtain rfl : k + 1 = s := Option.some.inj h
        exact ⟨[], t, by rw [hc]; rfl, rfl, rfl⟩
      | succ i =>
        obtain ⟨u, r, rfl, hcount, rfl⟩ := ih h
        refine ⟨c :: u, r, rfl, ?_, ?_⟩
        · rw [hc, List.count_cons_self, hcount]
        · rw [List.length_cons]
          omega
    · rename_i hc
      obtain ⟨u, r, rfl, hcount, rfl⟩ := ih h
      refine ⟨c :: u, r, rfl, ?_, ?_⟩
      · rw [List.count_cons_of_ne hc, hcount]
      · rw [List.length_cons]
        omega

/-- **The table has the lengths of the parts before the lines.** -/
theorem exists_startsLine {t : Text} {i s : Nat} (h : t.lineStarts[i]? = some s) :
    ∃ u, t.StartsLine i u ∧ u.length = s := by
  cases i with
  | zero =>
    obtain rfl : 0 = s := Option.some.inj h
    exact ⟨[], ⟨List.nil_prefix, rfl, .inl rfl⟩, rfl⟩
  | succ i =>
    obtain ⟨u, r, rfl, hcount, rfl⟩ := exists_of_laterLines h
    refine ⟨u ++ [ofChar '\n'], ⟨⟨r, by simp⟩, ?_, .inr ⟨u, rfl⟩⟩, by simp⟩
    simp [List.count_append, hcount]

/-- The part before line `i` is no longer than a place exactly if the place is in that line or in a
later one. -/
theorem StartsLine.length_le_iff {t u w : Text} {i : Nat} (h : t.StartsLine i u) (hw : w <+: t) :
    u.length ≤ w.length ↔ i ≤ w.count (ofChar '\n') := by
  constructor
  · intro hle
    have hprefix : u <+: w := List.prefix_of_prefix_length_le h.isPrefix hw hle
    have hcount := hprefix.count_le (ofChar '\n')
    rw [h.count_eq] at hcount
    exact hcount
  · intro hle
    rcases h.line_end with rfl | ⟨v, rfl⟩
    · exact Nat.zero_le _
    · -- a shorter part would end before the line feed in front of the line
      by_contra hlt
      rw [List.length_append, List.length_singleton] at hlt
      have hv : v <+: t := (List.prefix_append v [ofChar '\n']).trans h.isPrefix
      have hprefix : w <+: v := List.prefix_of_prefix_length_le hw hv (by omega)
      have hcount := hprefix.count_le (ofChar '\n')
      have hi := h.count_eq
      rw [List.count_append, List.count_singleton_self] at hi
      omega

/-- Behind the start of its own line, a place has no line feed in front of it. -/
theorem StartsLine.column_eq {t u w : Text} (h : t.StartsLine (w.count (ofChar '\n')) u)
    (hw : w <+: t) :
    (w.reverse.takeWhile (· ≠ ofChar '\n')).length = w.length - u.length := by
  have hle : u.length ≤ w.length := (h.length_le_iff hw).2 (Nat.le_refl _)
  obtain ⟨v, rfl⟩ : u <+: w := List.prefix_of_prefix_length_le h.isPrefix hw hle
  have hcount := h.count_eq
  rw [List.count_append] at hcount
  have hv : ∀ c ∈ v.reverse, decide (c ≠ ofChar '\n') = true := by
    intro c hc
    have hnot : ofChar '\n' ∉ v := List.count_eq_zero.1 (by omega)
    refine decide_eq_true fun heq => hnot ?_
    rw [← heq]
    exact List.mem_reverse.1 hc
  rw [List.reverse_append, List.takeWhile_append_of_pos hv]
  rcases h.line_end with rfl | ⟨u, rfl⟩
  · simp
  · simp only [List.reverse_append, List.reverse_singleton, List.singleton_append, ne_eq,
      not_true_eq_false, decide_false, List.takeWhile_cons, Bool.false_eq_true, if_false,
      List.append_nil, List.length_append, List.length_reverse]
    omega

/-! ## Bytes -/

theorem isChain_laterLines {s k : Nat} (h : s ≤ k) (t : Text) :
    List.IsChain (· ≤ ·) (s :: laterLines k t) := by
  induction t generalizing s k with
  | nil => exact .singleton s
  | cons c t ih =>
    rw [laterLines]
    split
    · exact List.isChain_cons_cons.2 ⟨by omega, ih (Nat.le_refl _)⟩
    · exact ih (by omega)

/-- A part and the piece that follows it take the bytes of both. -/
theorem utf8Length_extract (t : Text) {s k : Nat} (h : s ≤ k) :
    utf8Length (t.take s) + utf8Length (t.extract s k) = utf8Length (t.take k) := by
  obtain ⟨n, rfl⟩ := Nat.exists_eq_add_of_le h
  rw [List.take_add, utf8Length_append, List.extract_eq_take_drop, Nat.add_sub_cancel_left]

/-- **The second table has the bytes of the parts whose lengths the first one has.** -/
theorem lineBytes_eq (t : Text) {start : Nat} {starts : List Nat}
    (h : List.IsChain (· ≤ ·) (start :: starts)) :
    t.lineBytes (utf8Length (t.take start)) start starts =
      (start :: starts).map fun s => utf8Length (t.take s) := by
  induction starts generalizing start with
  | nil => rfl
  | cons next starts ih =>
    obtain ⟨hle, hrest⟩ := List.isChain_cons_cons.1 h
    rw [lineBytes, utf8Length_extract t hle, ih hrest]
    rfl

theorem utf8Length_of_isAscii {t : Text} (h : t.isAscii = true) : t.utf8Length = t.length := by
  induction t with
  | nil => rfl
  | cons c t ih =>
    simp only [isAscii, List.all_cons, Bool.and_eq_true, decide_eq_true_eq] at h
    have hwidth : c.utf8Width = 1 := by
      unfold CodePoint.utf8Width
      rw [if_pos h.1]
    rw [utf8Length, hwidth, ih h.2, List.length_cons, Nat.add_comm]

end Text

namespace Locator

variable {t : Text} {k : Nat}

/-- Bisection finds the line of a place, the first line being line one. -/
theorem bisectRight_lineStarts (h : k ≤ t.length) :
    bisectRight t.lineStarts.toArray k 0 t.lineStarts.toArray.size (Nat.le_refl _) =
      (t.take k).count (ofChar '\n') + 1 := by
  have hlen : (t.take k).length = k := List.length_take_of_le h
  have hprefix : t.take k <+: t := List.take_prefix k t
  refine bisectRight_eq (fun i hi => ?_) _ (Nat.zero_le _) ?_
  · rw [List.size_toArray] at hi
    obtain ⟨u, hu, hs⟩ := Text.exists_startsLine (List.getElem?_eq_getElem hi)
    have hiff := hu.length_le_iff hprefix
    rw [hlen, hs] at hiff
    rw [List.getElem_toArray, hiff, Nat.lt_succ_iff]
  · have hcount := hprefix.count_le (ofChar '\n')
    rw [List.size_toArray, Text.length_lineStarts]
    omega

/-- **With or without its table, the locator counts the bytes before a place.** -/
theorem bytesBefore_eq {i s : Nat} (hs : t.lineStarts[i]? = some s) (hsk : s ≤ k)
    (hk : k ≤ t.length) : (ofText t).bytesBefore i s k = Text.utf8Length (t.take k) := by
  by_cases hascii : t.isAscii = true
  · -- there is no table, and the place itself is the number of bytes
    have htake : Text.isAscii (t.take k) = true :=
      List.all_eq_true.2 fun c hc => List.all_eq_true.1 hascii c (List.mem_of_mem_take hc)
    rw [Text.utf8Length_of_isAscii htake, List.length_take_of_le hk]
    simp only [bytesBefore, ofText, hascii, if_true]
  · have htable : t.lineBytes 0 0 (t.laterLines 0) =
        t.lineStarts.map fun s => Text.utf8Length (t.take s) :=
      t.lineBytes_eq (Text.isChain_laterLines (Nat.le_refl 0) t)
    have hentry : (t.lineBytes 0 0 (t.laterLines 0)).toArray.getD i 0 =
        Text.utf8Length (t.take s) := by
      simp [htable, hs]
    simp only [bytesBefore, ofText, hascii, Bool.false_eq_true, if_false, hentry]
    exact Text.utf8Length_extract t hsk

/-- **The tables give the position counted from scratch.** -/
theorem locate_eq_of (h : k ≤ t.length) : (ofText t).locate k = Position.of (t.take k) := by
  have hlen : (t.take k).length = k := List.length_take_of_le h
  have hprefix : t.take k <+: t := List.take_prefix k t
  have hcount := hprefix.count_le (ofChar '\n')
  obtain ⟨s, hs⟩ : ∃ s, t.lineStarts[(t.take k).count (ofChar '\n')]? = some s := by
    refine ⟨_, List.getElem?_eq_getElem ?_⟩
    rw [Text.length_lineStarts]
    omega
  have hstart : (ofText t).lineStarts.getD ((t.take k).count (ofChar '\n')) 0 = s := by
    simp [ofText, hs]
  have hline : bisectRight (ofText t).lineStarts k 0 (ofText t).lineStarts.size (Nat.le_refl _) =
      (t.take k).count (ofChar '\n') + 1 := bisectRight_lineStarts h
  obtain ⟨u, hu, rfl⟩ := Text.exists_startsLine hs
  have hle : u.length ≤ k := by
    have := (hu.length_le_iff hprefix).2 (Nat.le_refl _)
    rwa [hlen] at this
  have hcolumn := hu.column_eq hprefix
  rw [hlen] at hcolumn
  have hplain : Position.of (t.take k) = ⟨Text.utf8Length (t.take k),
      (t.take k).count (ofChar '\n') + 1, k - u.length + 1⟩ := by
    rw [Position.of, hcolumn, Nat.add_comm 1, Nat.add_comm 1]
  simp only [locate, hline, Nat.add_sub_cancel, hstart, bytesBefore_eq hs hle h, hplain]

/-- **A locator agrees with the plain definition of a position.** For every place of a text, its
offset is the number of bytes that encode the text before it, its line one more than the line feeds
in that text, and its column one more than the code points since the last of them. -/
theorem locate_counts (h : k ≤ t.length) :
    ((ofText t).locate k).offset = (Utf8.encode (t.take k)).length ∧
      ((ofText t).locate k).line = 1 + (t.take k).count (ofChar '\n') ∧
      ((ofText t).locate k).column =
        1 + ((t.take k).reverse.takeWhile (· ≠ ofChar '\n')).length := by
  rw [locate_eq_of h, Utf8.length_encode]
  exact ⟨rfl, rfl, rfl⟩

/-- The third of four lines, which is empty, and the end of a text without a final line feed: once
where every code point is a byte, and once behind wider ones, a surrogate among them. -/
theorem locate_counts_lines :
    let plain : Text := "a\n\n\nbc"
    let wide : Text := ofChar 'é' :: ofChar '\n' :: ⟨0xD800, by decide⟩ :: Text.ofString "\n\nb€"
    let At (t : Text) (k offset line column : Nat) : Prop :=
      let p := (ofText t).locate k
      p.offset = offset ∧ p.line = line ∧ p.column = column
    plain.isAscii = true ∧ At plain 3 3 3 1 ∧ At plain 6 6 4 3 ∧
      wide.isAscii = false ∧ At wide 4 7 3 1 ∧ At wide 7 12 4 3 := by
  intro plain wide At
  refine ⟨by decide, ?_, ?_, by decide, ?_, ?_⟩
  · exact locate_counts (t := plain) (k := 3) (by decide)
  · exact locate_counts (t := plain) (k := 6) (by decide)
  · exact locate_counts (t := wide) (k := 4) (by decide)
  · exact locate_counts (t := wide) (k := 7) (by decide)

end Locator

end MiniLisp
