import MiniLisp.Text.Basic
import MiniLisp.Text.Ranges

/-!
# White space and bare words

`CodePoint.isBlank` is the white space of Unicode together with the four information separators
U+001C..U+001F. A **bare word** is a non-empty run of code points that are neither blank nor a
control nor one of the six marks of the notation.
-/

namespace MiniLisp

/-- The white space code points. -/
def blanks : Ranges where
  toList := [
    (0x9, 0xD), (0x1C, 0x20), (0x85, 0x85), (0xA0, 0xA0), (0x1680, 0x1680), (0x2000, 0x200A),
    (0x2028, 0x2029), (0x202F, 0x202F), (0x205F, 0x205F), (0x3000, 0x3000)]
  ascending := by decide +kernel

def CodePoint.isBlank (c : CodePoint) : Bool := blanks.holds c.val

/-- The marks that end a bare word: parentheses, colon, quote, number sign and backslash. -/
def CodePoint.isMark (c : CodePoint) : Bool :=
  c = '(' || c = ')' || c = ':' || c = '"' || c = '#' || c = '\\'

/-- The C0 controls and the delete character. -/
def CodePoint.isControl (c : CodePoint) : Bool := c.val ≤ 0x1F || c.val == 0x7F

/-- Whether the code point can stand in a bare word. -/
def CodePoint.isBare (c : CodePoint) : Bool := !c.isBlank && !c.isMark && !c.isControl

namespace Text

/-- A non-empty text of bare code points. -/
def isBareWord (t : Text) : Bool := !t.isEmpty && t.all CodePoint.isBare

/-- The text without white space at its two ends. -/
def strip (t : Text) : Text :=
  ((t.dropWhile CodePoint.isBlank).reverse.dropWhile CodePoint.isBlank).reverse

/-- The text without carriage returns at its end. -/
def stripReturns (t : Text) : Text := (t.reverse.dropWhile (· = CodePoint.ofChar '\r')).reverse

end Text

end MiniLisp
