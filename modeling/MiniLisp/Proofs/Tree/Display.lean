import MiniLisp.Proofs.Datum.Width
import MiniLisp.Proofs.Evaluation.Writing
import MiniLisp.Proofs.Text.Escaped

/-!
# Trees in messages

A message shows an atom escaped, and cut to a width if it is too long. **The cut takes out the
middle and nothing else** (`Text.shorten_elides`): a start and an end of the escaped text stay, with
an ellipsis between them, and together they have the width asked for. Escapes and ellipsis are
printable, and so is what a message shows of a tree without functions, whatever its atoms are.

* `Text.Elides e s`: `s` is `e` with an ellipsis for its middle. There is at most one such text of
  each length (`Elides.unique`).
* `Text.elides_cut`: a start and an end that do not overlap make one.
* `Tree.printable_display`: a tree is shown in printable code points if its leaves are.
-/

namespace MiniLisp

namespace Text

/-! ## Printable texts -/

/-- Every code point of the text is shown as itself. -/
def Printable (t : Text) : Prop := ∀ c ∈ t, c.isPrintable = true

instance (t : Text) : Decidable t.Printable :=
  inferInstanceAs (Decidable (∀ c ∈ t, c.isPrintable = true))

theorem printable_escape (t : Text) (quotes : Bool) : (t.escape quotes).Printable :=
  fun _ hc => isPrintable_of_mem_escape hc

namespace Printable

variable {s t : Text}

theorem append (hs : s.Printable) (ht : t.Printable) : (s ++ t).Printable :=
  List.forall_mem_append.2 ⟨hs, ht⟩

theorem join {sep : Text} {pieces : List Text} (hsep : sep.Printable)
    (h : ∀ piece ∈ pieces, piece.Printable) : (Text.join sep pieces).Printable := by
  intro c hc
  by_contra hnot
  -- a code point that is not printable is in none of the pieces
  have hsep' : c ∉ sep := fun hc => hnot (hsep c hc)
  have hpieces : ∀ piece ∈ pieces, c ∉ piece := fun piece hpiece hc => hnot (h piece hpiece c hc)
  exact notMem_join hsep' hpieces hc

theorem inParens (ht : t.Printable) : t.inParens.Printable := by
  have hopen : Printable "(" := by decide +kernel
  have hclose : Printable ")" := by decide +kernel
  exact (hopen.append ht).append hclose

theorem entry {key value : Text} (hkey : key.Printable) (hvalue : value.Printable) :
    (Text.entry key value).Printable := by
  have hcolon : Printable ": " := by decide +kernel
  exact (hkey.append hcolon).append hvalue

end Printable

/-! ## Texts with the middle cut out -/

/-- The text `s` is `e` with an ellipsis in place of its middle. Something stays on both sides of
it, and the start is as long as the end or longer by one. -/
def Elides (e s : Text) : Prop :=
  ∃ head middle tail, e = head ++ (middle ++ tail) ∧ s = head ++ (ellipsis ++ tail) ∧
    head ≠ [] ∧ tail ≠ [] ∧ (head.length = tail.length ∨ head.length = tail.length + 1)

namespace Elides

variable {e s s' : Text}

/-- The length decides how much of either side stays. -/
theorem unique (h : Elides e s) (h' : Elides e s') (hlength : s.length = s'.length) : s = s' := by
  obtain ⟨head, middle, tail, he, rfl, -, -, hbalance⟩ := h
  obtain ⟨head', middle', tail', he', rfl, -, -, hbalance'⟩ := h'
  simp only [List.length_append] at hlength
  have hhead : head.length = head'.length := by omega
  have htail : tail.length = tail'.length := by omega
  obtain ⟨rfl, hrest⟩ := List.append_inj (he.symm.trans he') hhead
  obtain ⟨-, rfl⟩ := List.append_inj' hrest htail
  rfl

theorem printable (h : Elides e s) (he : e.Printable) : s.Printable := by
  obtain ⟨head, middle, tail, rfl, rfl, -⟩ := h
  have hellipsis : Printable ellipsis := by decide +kernel
  obtain ⟨hhead, hrest⟩ := List.forall_mem_append.1 he
  obtain ⟨-, htail⟩ := List.forall_mem_append.1 hrest
  exact Printable.append hhead (hellipsis.append htail)

end Elides

/-- A start and an end that do not overlap leave a middle to cut out. -/
theorem elides_cut {e : Text} {m n : Nat} (hn : 0 < n) (hbalance : m = n ∨ m = n + 1)
    (hfits : m + n ≤ e.length) : Elides e (e.take m ++ ellipsis ++ e.drop (e.length - n)) := by
  obtain ⟨k, hk⟩ : ∃ k, e.length = m + k + n := ⟨e.length - (m + n), by omega⟩
  have hend : e.length - n = m + k := by omega
  have hparts : e = e.take m ++ ((e.drop m).take k ++ e.drop (m + k)) := by
    rw [← List.drop_drop, List.take_append_drop, List.take_append_drop]
  have hhead : (e.take m).length = m := List.length_take_of_le (by omega)
  have htail : (e.drop (m + k)).length = n := by
    rw [List.length_drop]
    omega
  rw [hend]
  refine ⟨e.take m, (e.drop m).take k, e.drop (m + k), hparts, List.append_assoc .., ?_, ?_, ?_⟩
  · exact List.ne_nil_of_length_pos (by omega)
  · exact List.ne_nil_of_length_pos (by omega)
  · rwa [hhead, htail]

/-! ## Shortened texts -/

section Shorten

variable {t : Text} {width : Int}

theorem shorten_eq_escape (h : width ≤ 0 ∨ ((t.escape false).length : Int) ≤ max width 6) :
    t.shorten width = t.escape false := if_pos h

/-- What is cut has the width asked for, or the least width. -/
theorem shorten_eq_cut (hwidth : 0 < width)
    (hlong : max width 6 < ((t.escape false).length : Int)) :
    ((t.shorten width).length : Int) = max width 6 ∧ Elides (t.escape false) (t.shorten width) := by
  obtain ⟨keep, hkeep⟩ : ∃ keep : Nat, max width 6 = keep + 1 :=
    ⟨(max width 6).toNat - 1, by omega⟩
  have hcut : t.shorten width = (t.escape false).take ((keep + 1) / 2) ++ ellipsis ++
      (t.escape false).drop ((t.escape false).length - keep / 2) := by
    have hnot : ¬ (width ≤ 0 ∨ ((t.escape false).length : Int) ≤ max width leastWidth) := by
      unfold leastWidth
      omega
    have hkeep' : (max width leastWidth).toNat - 1 = keep := by
      unfold leastWidth
      omega
    unfold shorten
    simp only [if_neg hnot, hkeep']
  have hellipsis : ellipsis.length = 1 := rfl
  rw [hcut]
  -- at least five code points are kept, so that some of them stay on either side
  constructor
  · simp only [List.length_append, List.length_take, List.length_drop]
    omega
  · exact elides_cut (by omega) (by omega) (by omega)

theorem printable_shorten (t : Text) (width : Int) : (t.shorten width).Printable := by
  have hescape : (t.escape false).Printable := printable_escape t false
  by_cases h : width ≤ 0 ∨ ((t.escape false).length : Int) ≤ max width 6
  · rw [shorten_eq_escape h]
    exact hescape
  · obtain ⟨hwidth, hlong⟩ := not_or.1 h
    exact (shorten_eq_cut (by omega) (by omega)).2.printable hescape

end Shorten

end Text

/-! ## Trees -/

/-- **A tree is shown in printable code points** if its leaves are. -/
theorem Tree.printable_display {α : Type} {leaf : α → Text} {t : Tree α} (width : Int)
    (h : ∀ a ∈ t.leaves, (leaf a).Printable) : (t.display leaf width).Printable := by
  have hspace : Text.Printable " " := by decide +kernel
  induction t using Tree.induct with
  | atom a => exact Text.printable_shorten a.text width
  | list items ih =>
    rw [leaves_list, List.forall_mem_flatMap] at h
    rw [display_list]
    refine .inParens (.join hspace (List.forall_mem_map.2 fun item hitem => ?_))
    exact ih item hitem (h item hitem)
  | map key value rest hkey hvalue ih =>
    simp only [leaves_map, List.forall_mem_append, List.forall_mem_flatMap] at h
    obtain ⟨hkeyLeaves, hvalueLeaves, hrestLeaves⟩ := h
    rw [display_map]
    refine .inParens (.join hspace (List.forall_mem_map.2 (List.forall_mem_cons.2 ⟨?_, ?_⟩)))
    · exact .entry (hkey hkeyLeaves) (hvalue hvalueLeaves)
    · intro e he
      obtain ⟨hk, hv⟩ := hrestLeaves e he
      exact .entry ((ih e he).1 hk) ((ih e he).2 hv)
  | leaf a => exact h a List.mem_cons_self

/-- **Shortening keeps its width and cuts only the middle.** The text is escaped. Without a positive
width, or if what is escaped is no longer than the width, for which 6 is the least, all of it is
shown. Otherwise what is shown has exactly that width, and is the one text of this length that has a
start of the escaped text, an ellipsis, and an end of it that does not reach into the start, the
start being as long as the end or longer by one. All of it is printable, and so is a value without
functions as messages show it. -/
theorem Text.shorten_elides (t : Text) (width : Int) (v : Value) :
    let e := t.escape false
    let shown := t.shorten width
    shown.Printable ∧
      (width ≤ 0 ∨ (e.length : Int) ≤ max width 6 → shown = e) ∧
      (0 < width ∧ max width 6 < (e.length : Int) →
        (shown.length : Int) = max width 6 ∧ Elides e shown ∧
          ∀ s, Elides e s → s.length = shown.length → s = shown) ∧
      (v.leaves = [] → (v.display width).Printable) := by
  intro e shown
  refine ⟨printable_shorten t width, shorten_eq_escape, ?_, fun hleaves => ?_⟩
  · rintro ⟨hwidth, hlong⟩
    obtain ⟨hlength, helides⟩ := shorten_eq_cut hwidth hlong
    exact ⟨hlength, helides, fun s hs hs' => hs.unique helides hs'⟩
  · refine Tree.printable_display width fun f hf => ?_
    rw [hleaves] at hf
    exact absurd hf List.not_mem_nil

/-- Escapes are written out before the cut, which may go through one: a text cut to the least width,
to one less than its length, and not at all, and a map with a long atom in it. -/
theorem Text.shorten_elides_escapes :
    let t : Text := "tab\there\x07"
    let e : Text := "tab\\there\\x07"
    let v : Value :=
      .map (.atom (.quoted "k\n")) (.list [.atom (.bare "abcdefghijklmn"), Tree.nil]) []
    t.escape false = e ∧ e.length = 13 ∧
      t.shorten 1 = "tab⠤07" ∧ Elides e "tab⠤07" ∧
      t.shorten 12 = "tab\\th⠤e\\x07" ∧ Elides e "tab\\th⠤e\\x07" ∧
      t.shorten 13 = e ∧
      v.leaves = [] ∧ v.display 7 = "(k\\n: (abc⠤lmn ()))" ∧ (v.display 7).Printable := by
  intro t e v
  have hescape : t.escape false = e := by decide +kernel
  have hlength : e.length = 13 := rfl
  have hleast : t.shorten 1 = "tab⠤07" := by decide +kernel
  have hone : t.shorten 12 = "tab\\th⠤e\\x07" := by decide +kernel
  have hleaves : v.leaves = [] := rfl
  have hdisplay : v.display 7 = "(k\\n: (abc⠤lmn ()))" := by decide +kernel
  obtain ⟨-, -, hcut, -⟩ := shorten_elides t 1 v
  obtain ⟨-, hleastCut, -⟩ := hcut (by rw [hescape, hlength]; decide)
  obtain ⟨-, -, hcut, -⟩ := shorten_elides t 12 v
  obtain ⟨-, honeCut, -⟩ := hcut (by rw [hescape, hlength]; decide)
  obtain ⟨-, hfits, -, -⟩ := shorten_elides t 13 v
  obtain ⟨-, -, -, hprintable⟩ := shorten_elides t 7 v
  rw [hescape, hleast] at hleastCut
  rw [hescape, hone] at honeCut
  rw [hescape, hlength] at hfits
  exact ⟨hescape, hlength, hleast, hleastCut, hone, honeCut, hfits (.inr (by decide)),
    hleaves, hdisplay, hprintable hleaves⟩

end MiniLisp
