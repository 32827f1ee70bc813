import MiniLisp.Text.Basic

/-!
# Positions in a text

A position counts the UTF-8 bytes before a place, its line and its column, both from one. Reading a
text moves the position forward code point by code point (`advance`, `after`). `Position.of` says
directly what the position at the end of a text is, and `after_start` that the two agree: **the
offset is the UTF-8 length, the line one more than the line feeds, the column one more than the code
points since the last of them**.
-/

namespace MiniLisp

/-- A place in a text. -/
structure Position where
  /-- UTF-8 bytes before the place. -/
  offset : Nat
  line : Nat
  column : Nat
  deriving DecidableEq

namespace Position

/-- Where a text starts. -/
def start : Position := ⟨0, 1, 1⟩

/-- The place after one more code point; only a line feed ends a line. -/
def advance (p : Position) (c : CodePoint) : Position :=
  if c = '\n' then ⟨p.offset + c.utf8Width, p.line + 1, 1⟩
  else ⟨p.offset + c.utf8Width, p.line, p.column + 1⟩

/-- The place after a whole text. -/
def after (p : Position) (t : Text) : Position := t.foldl advance p

/-- The position at the end of a text, counted from scratch. -/
def of (t : Text) : Position where
  offset := t.utf8Length
  line := 1 + t.count (CodePoint.ofChar '\n')
  column := 1 + (t.reverse.takeWhile (· ≠ CodePoint.ofChar '\n')).length

/-- `line:column`. -/
def toText (p : Position) : Text := Text.ofNat p.line ++ ":" ++ Text.ofNat p.column

theorem after_append (p : Position) (s t : Text) : p.after (s ++ t) = (p.after s).after t := by
  simp [after, List.foldl_append]

theorem of_nil : of [] = start := rfl

/-- Counting from scratch moves on like reading does. -/
theorem of_append_singleton (t : Text) (c : CodePoint) : of (t ++ [c]) = (of t).advance c := by
  have hsum : Text.utf8Length (t ++ [c]) = Text.utf8Length t + c.utf8Width := by
    simp [Text.utf8Length_append, Text.utf8Length]
  by_cases h : c = CodePoint.ofChar '\n'
  · simp [of, advance, ← h, hsum, List.count_append, Nat.add_assoc]
  · have hcount : [c].count (CodePoint.ofChar '\n') = 0 := by
      simp [h]
    simp [of, advance, h, hsum, List.count_append, hcount, Nat.add_assoc]

/-- Reading a text from its start ends at the position of its end. -/
theorem after_start (t : Text) : start.after t = of t := by
  have key (r : Text) : start.after r.reverse = of r.reverse := by
    induction r with
    | nil => rfl
    | cons c r ih => rw [List.reverse_cons, after_append, ih, of_append_singleton]; rfl
  simpa using key t.reverse

end Position

end MiniLisp
