import MiniLisp.Text.Position

/-!
# Places by tables

A `Locator` gives the position of any place of a text without going through the text again. It knows
where each line starts and finds the line of a place by bisection. If every code point of the text
takes one byte, the place itself counts the bytes; otherwise a second table has the bytes before
each line, and only the part of the line in front of the place is measured.
-/

namespace MiniLisp

/-- How many entries of an ascending table are at most `x`, where those before `low` are and those
from `high` on are not. -/
def bisectRight (table : Array Nat) (x low high : Nat) (h : high ≤ table.size) : Nat :=
  if hlow : low < high then
    let mid := (low + high) / 2
    have hmid : mid < table.size := by omega
    if x < table[mid] then bisectRight table x low mid (Nat.le_of_lt hmid)
    else bisectRight table x (mid + 1) high h
  else low
termination_by high - low

namespace Text

def isAscii (t : Text) : Bool := t.all fun c => c.val < 0x80

/-- Where further lines start in a text that comes after `k` code points. -/
def laterLines (k : Nat) : Text → List Nat
  | [] => []
  | c :: t => if c = '\n' then (k + 1) :: laterLines (k + 1) t else laterLines (k + 1) t

/-- Where the lines of a text start. -/
def lineStarts (t : Text) : List Nat := 0 :: laterLines 0 t

/-- How many bytes of a text come before each line: `bytes` before the line at `start`, and those of
the lines in between before each later one. -/
def lineBytes (t : Text) (bytes start : Nat) : List Nat → List Nat
  | [] => [bytes]
  | next :: starts =>
    bytes :: lineBytes t (bytes + utf8Length (t.extract start next)) next starts

end Text

/-- A text with its tables. -/
structure Locator where
  source : Text
  lineStarts : Array Nat
  /-- The bytes before each line, if some code point takes more than one. -/
  lineBytes : Option (Array Nat)

namespace Locator

def ofText (t : Text) : Locator where
  source := t
  lineStarts := t.lineStarts.toArray
  lineBytes := if t.isAscii then none else some (t.lineBytes 0 0 (t.laterLines 0)).toArray

/-- The bytes before the place `k`, which is in the line that starts at `start` and has `before`
lines before it. -/
def bytesBefore (l : Locator) (before start k : Nat) : Nat :=
  match l.lineBytes with
  | none => k
  | some bytes => bytes.getD before 0 + Text.utf8Length (l.source.extract start k)

/-- The position after the first `k` code points. -/
def locate (l : Locator) (k : Nat) : Position :=
  let line := bisectRight l.lineStarts k 0 l.lineStarts.size (Nat.le_refl _)
  let start := l.lineStarts.getD (line - 1) 0
  ⟨l.bytesBefore (line - 1) start k, line, k - start + 1⟩

end Locator

end MiniLisp
