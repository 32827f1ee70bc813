/-!
# Texts

A text is any sequence of code points. The surrogates U+D800..U+DFFF count as code points here: an
escape in a quoted string can name one, and a text that holds one is still read and measured like
any other. It can be printed, too, if the output takes it: that an output takes any text is an
assumption about the surroundings, which one that encodes strictly in UTF-8 does not meet. `String`
excludes surrogates, so texts are lists over `CodePoint`.

* `CodePoint.utf8Width`: the bytes a code point takes in UTF-8, three for a surrogate.
* `Text.ofString`, `Text.ofNat`, `Text.ofInt`: literals and decimal numbers as texts.
* `Text.join`: the pieces of a message put together with a separator.
-/

namespace MiniLisp

/-- A Unicode code point, surrogates included. -/
structure CodePoint where
  val : Nat
  lt : val < 0x110000
  deriving DecidableEq

namespace CodePoint

theorem toNat_lt_limit (c : Char) : c.toNat < 0x110000 := by
  have h : c.val.toNat < 0xD800 ∨ 0xDFFF < c.val.toNat ∧ c.val.toNat < 0x110000 := c.valid
  have e : c.toNat = c.val.toNat := rfl
  omega

def ofChar (c : Char) : CodePoint := ⟨c.toNat, toNat_lt_limit c⟩

instance : Coe Char CodePoint := ⟨ofChar⟩

instance : Inhabited CodePoint := ⟨' '⟩

/-- The code point numbered `n`, if there is one. -/
def ofNat? (n : Nat) : Option CodePoint :=
  if h : n < 0x110000 then some ⟨n, h⟩ else none

def isSurrogate (c : CodePoint) : Bool := 0xD800 ≤ c.val && c.val ≤ 0xDFFF

/-- How many bytes UTF-8 spends on the code point; a surrogate counts like its neighbours. -/
def utf8Width (c : CodePoint) : Nat :=
  if c.val < 0x80 then 1 else if c.val < 0x800 then 2 else if c.val < 0x10000 then 3 else 4

/-- Value of an ASCII hexadecimal digit, in either case. -/
def hexValue? (c : CodePoint) : Option Nat :=
  if 0x30 ≤ c.val ∧ c.val ≤ 0x39 then some (c.val - 0x30)
  else if 0x61 ≤ c.val ∧ c.val ≤ 0x66 then some (c.val - 0x61 + 10)
  else if 0x41 ≤ c.val ∧ c.val ≤ 0x46 then some (c.val - 0x41 + 10)
  else none

end CodePoint

/-- A text: its code points in order. -/
abbrev Text := List CodePoint

namespace Text

def ofString (s : String) : Text := s.toList.map CodePoint.ofChar

instance : Coe String Text := ⟨ofString⟩

/-- Decimal digits of a natural number. -/
def ofNat (n : Nat) : Text := (Nat.toDigits 10 n).map CodePoint.ofChar

/-- Decimal digits of an integer, after a minus sign if it is negative. -/
def ofInt : Int → Text
  | .ofNat n => ofNat n
  | .negSucc n => CodePoint.ofChar '-' :: ofNat (n + 1)

/-- Lower-case hexadecimal digits of a natural number. -/
def hex (n : Nat) : Text := (Nat.toDigits 16 n).map CodePoint.ofChar

/-- Lower-case hexadecimal digits, filled up with zeros on the left to `width`. -/
def hexPadded (width n : Nat) : Text :=
  List.replicate (width - (hex n).length) (CodePoint.ofChar '0') ++ hex n

/-- The pieces in order with `sep` between neighbours. -/
def join (sep : Text) (pieces : List Text) : Text := sep.intercalate pieces

/-- `count` spaces, none if the count is negative. -/
def spaces (count : Int) : Text := List.replicate count.toNat (CodePoint.ofChar ' ')

/-- Value of a run of hexadecimal digits, or nothing if one of them is none. -/
def hexNumber? (digits : Text) : Option Nat :=
  digits.foldlM (fun n c => (c.hexValue?).map (16 * n + ·)) 0

/-- How many bytes the text takes in UTF-8. -/
def utf8Length : Text → Nat
  | [] => 0
  | c :: t => c.utf8Width + utf8Length t

theorem utf8Length_append (s t : Text) :
    utf8Length (s ++ t) = utf8Length s + utf8Length t := by
  induction s with
  | nil => simp [utf8Length]
  | cons c s ih => simp [utf8Length, ih, Nat.add_assoc]

end Text

end MiniLisp
