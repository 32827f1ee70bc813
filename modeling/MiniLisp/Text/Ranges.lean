/-!
# Sets of code points given by ranges

A property of code points is written as a table of closed ranges, and a table is **ascending** by
its type: every range ends before the next one starts. `Ranges.holds` stops at the first range that
starts beyond the number it looks for, and `Ranges.offset?` also tells how far into its range the
number lies. Stopping early loses nothing, since the table ascends (`holds_iff`).
-/

namespace MiniLisp

namespace Ranges

/-- Every range ends before the next one starts. -/
def Ascending : List (Nat × Nat) → Prop
  | [] => True
  | [(lo, hi)] => lo ≤ hi
  | (lo, hi) :: (lo', hi') :: rest => lo ≤ hi ∧ hi < lo' ∧ Ascending ((lo', hi') :: rest)

instance decidableAscending : (ranges : List (Nat × Nat)) → Decidable (Ascending ranges)
  | [] => isTrue trivial
  | [(lo, hi)] => inferInstanceAs (Decidable (lo ≤ hi))
  | (lo, hi) :: (lo', hi') :: rest =>
    have := decidableAscending ((lo', hi') :: rest)
    inferInstanceAs (Decidable (lo ≤ hi ∧ hi < lo' ∧ Ascending ((lo', hi') :: rest)))

/-- The distance of `n` from the start of the range that holds it. What lies behind a range that
starts beyond `n` is not looked at. -/
def offsetIn? (n : Nat) : List (Nat × Nat) → Option Nat
  | [] => none
  | (lo, hi) :: rest =>
    if n < lo then none else if n ≤ hi then some (n - lo) else offsetIn? n rest

end Ranges

/-- Closed ranges of numbers, ascending and apart. -/
structure Ranges where
  toList : List (Nat × Nat)
  ascending : Ranges.Ascending toList

namespace Ranges

/-- The distance of `n` from the start of the range that holds it. -/
def offset? (ranges : Ranges) (n : Nat) : Option Nat := offsetIn? n ranges.toList

def holds (ranges : Ranges) (n : Nat) : Bool := (ranges.offset? n).isSome

theorem Ascending.tail {r : Nat × Nat} {rest : List (Nat × Nat)} (h : Ascending (r :: rest)) :
    Ascending rest := by
  cases rest with
  | nil => trivial
  | cons s rest => exact h.2.2

theorem Ascending.lo_le {r : Nat × Nat} {rest : List (Nat × Nat)} (h : Ascending (r :: rest)) :
    ∀ s ∈ r :: rest, r.1 ≤ s.1 := by
  induction rest generalizing r with
  | nil =>
    intro s hs
    obtain rfl := List.mem_singleton.1 hs
    exact Nat.le_refl _
  | cons next rest ih =>
    obtain ⟨hr, hgap, hrest⟩ := h
    intro s hs
    rcases List.mem_cons.1 hs with rfl | hs
    · exact Nat.le_refl _
    · have hnext : next.1 ≤ s.1 := ih hrest s hs
      omega

theorem isSome_offsetIn?_iff {ranges : List (Nat × Nat)} (h : Ascending ranges) (n : Nat) :
    (offsetIn? n ranges).isSome = true ↔ ∃ r ∈ ranges, r.1 ≤ n ∧ n ≤ r.2 := by
  induction ranges with
  | nil => simp [offsetIn?]
  | cons r rest ih =>
    obtain ⟨lo, hi⟩ := r
    rw [offsetIn?]
    by_cases hbefore : n < lo
    · -- all other ranges start beyond `n`, too
      rw [if_pos hbefore]
      refine ⟨nofun, ?_⟩
      rintro ⟨s, hs, hstart, -⟩
      have hlo : lo ≤ s.1 := h.lo_le s hs
      omega
    rw [if_neg hbefore]
    by_cases hin : n ≤ hi
    · rw [if_pos hin]
      exact ⟨fun _ => ⟨(lo, hi), List.mem_cons_self, Nat.not_lt.1 hbefore, hin⟩, fun _ => rfl⟩
    · rw [if_neg hin, ih h.tail]
      constructor
      · rintro ⟨s, hs, hs'⟩
        exact ⟨s, List.mem_cons_of_mem _ hs, hs'⟩
      · rintro ⟨s, hs, hstart, hend⟩
        rcases List.mem_cons.1 hs with rfl | hs
        · exact absurd hend hin
        · exact ⟨s, hs, hstart, hend⟩

/-- **Stopping early loses nothing.** -/
theorem holds_iff (ranges : Ranges) (n : Nat) :
    ranges.holds n = true ↔ ∃ r ∈ ranges.toList, r.1 ≤ n ∧ n ≤ r.2 :=
  isSome_offsetIn?_iff ranges.ascending n

end Ranges

end MiniLisp
