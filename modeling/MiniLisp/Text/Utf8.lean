import MiniLisp.Text.Basic

/-!
# UTF-8

`Utf8.decode` reads bytes strictly: no overlong forms, no surrogates, nothing beyond U+10FFFF. It
gives the text of the longest decodable start and, if that is not everything, the fault at its end:
where the ill-formed sequence starts, how many bytes of it could have started a code point, and what
is wrong with the byte after them. `Utf8.encode` writes a text, a surrogate like its neighbours.
-/

namespace MiniLisp.Utf8

/-- Why bytes are not UTF-8. -/
inductive Reason
  | invalidStart
  | invalidContinuation
  | unexpectedEnd
  deriving DecidableEq

/-- An ill-formed sequence: its first byte's offset and value, how many bytes belong to it. -/
structure Fault where
  start : Nat
  byte : Nat
  length : Nat
  reason : Reason
  deriving DecidableEq

/-- A code point that has begun: its first byte and how many of its bytes have been read, the bits
so far, how many bytes it still needs and the bounds for the next one. -/
structure Begun where
  lead : Nat
  read : Nat
  bits : Nat
  owed : Nat
  low : Nat
  high : Nat

/-- The code point that a byte from 0xC2 on begins. -/
def Begun.begin? (b : Nat) : Option Begun :=
  if 0xC2 ≤ b ∧ b ≤ 0xDF then some ⟨b, 1, b - 0xC0, 1, 0x80, 0xBF⟩
  else if b = 0xE0 then some ⟨b, 1, 0, 2, 0xA0, 0xBF⟩
  else if b = 0xED then some ⟨b, 1, 0xD, 2, 0x80, 0x9F⟩
  else if 0xE1 ≤ b ∧ b ≤ 0xEF then some ⟨b, 1, b - 0xE0, 2, 0x80, 0xBF⟩
  else if b = 0xF0 then some ⟨b, 1, 0, 3, 0x90, 0xBF⟩
  else if 0xF1 ≤ b ∧ b ≤ 0xF3 then some ⟨b, 1, b - 0xF0, 3, 0x80, 0xBF⟩
  else if b = 0xF4 then some ⟨b, 1, 4, 3, 0x80, 0x8F⟩
  else none

/-- One more byte of a code point. -/
def Begun.next? (p : Begun) (b : Nat) : Option Begun :=
  if p.low ≤ b ∧ b ≤ p.high then
    some ⟨p.lead, p.read + 1, 0x40 * p.bits + (b - 0x80), p.owed - 1, 0x80, 0xBF⟩
  else none

/-- Decode from `offset` on, where no code point has begun or `begun` has. -/
def decodeFrom (offset : Nat) (begun : Option Begun) : List UInt8 → Text × Option Fault
  | [] =>
    match begun with
    | none => ([], none)
    | some p => ([], some ⟨offset, p.lead, p.read, .unexpectedEnd⟩)
  | byte :: bytes =>
    let b := byte.toNat
    match begun with
    | none =>
      if h : b < 0x80 then
        let (text, fault) := decodeFrom (offset + 1) none bytes
        (⟨b, by omega⟩ :: text, fault)
      else match Begun.begin? b with
        | some p => decodeFrom offset (some p) bytes
        | none => ([], some ⟨offset, b, 1, .invalidStart⟩)
    | some p =>
      match p.next? b with
      | none => ([], some ⟨offset, p.lead, p.read, .invalidContinuation⟩)
      | some q =>
        if q.owed = 0 then
          let (text, fault) := decodeFrom (offset + q.read) none bytes
          ((CodePoint.ofNat? q.bits).toList ++ text, fault)
        else decodeFrom offset (some q) bytes

/-- The text of the longest decodable start, and what is wrong after it, if anything. -/
def decode (bytes : List UInt8) : Text × Option Fault := decodeFrom 0 none bytes

/-- The continuation byte with the low six bits of a number. -/
def continuation (n : Nat) : UInt8 := .ofNat (0x80 + n % 0x40)

/-- The bytes of one code point. -/
def encodePoint (c : CodePoint) : List UInt8 :=
  let n := c.val
  if n < 0x80 then [.ofNat n]
  else if n < 0x800 then [.ofNat (0xC0 + n / 0x40), continuation n]
  else if n < 0x10000 then
    [.ofNat (0xE0 + n / 0x1000), continuation (n / 0x40), continuation n]
  else
    [.ofNat (0xF0 + n / 0x40000), continuation (n / 0x1000), continuation (n / 0x40),
      continuation n]

def encode (t : Text) : List UInt8 := t.flatMap encodePoint

theorem length_encodePoint (c : CodePoint) : (encodePoint c).length = c.utf8Width := by
  unfold encodePoint CodePoint.utf8Width
  dsimp only
  repeat' split
  all_goals rfl

/-- A text's UTF-8 length is the number of its bytes. -/
theorem length_encode (t : Text) : (encode t).length = Text.utf8Length t := by
  induction t with
  | nil => rfl
  | cons c t ih =>
    rw [Text.utf8Length, ← ih, ← length_encodePoint]
    simp [encode]

end MiniLisp.Utf8
