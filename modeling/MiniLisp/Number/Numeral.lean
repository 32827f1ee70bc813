import MiniLisp.Number.Basic
import MiniLisp.Text.DecimalDigit

/-!
# Numerals

A numeral is an optional sign, digits with at most one point among or around them, and an optional
exponent. Digits may be of any script. `Numeral.parse?` takes a text apart and decides whether it is
a numeral at all; `Numeral.value` is the number it denotes, an integer if there is neither point
nor exponent.
-/

namespace MiniLisp

/-- The parts of a numeral: digits before the point, digits after it if there is one, and the
signed exponent if there is one. -/
structure Numeral where
  negative : Bool
  whole : Text
  fraction : Option Text
  exponent : Option (Bool × Text)
  deriving DecidableEq

namespace Numeral

/-- Split off a sign: whether it is a minus, and what follows. -/
def splitSign : Text → Bool × Text
  | [] => (false, [])
  | c :: rest =>
    if c = '-' then (true, rest) else if c = '+' then (false, rest) else (false, c :: rest)

/-- The run of digits at the start, and what follows. -/
def splitDigits (t : Text) : Text × Text := t.span CodePoint.isDigit

/-- The digits after a point at the start, if there is a point, and what follows. -/
def splitFraction : Text → Option Text × Text
  | [] => (none, [])
  | c :: rest =>
    if c = '.' then
      let (digits, rest) := splitDigits rest
      (some digits, rest)
    else (none, c :: rest)

/-- The exponent that makes up the whole text: none if the text is empty, and a failure unless it is
`e`, a sign if any, and digits. -/
def parseExponent? : Text → Option (Option (Bool × Text))
  | [] => some none
  | c :: rest =>
    if c = 'e' ∨ c = 'E' then
      let (negative, digits) := splitSign rest
      if digits.isEmpty || !digits.all CodePoint.isDigit then none
      else some (some (negative, digits))
    else none

/-- The parts of a text that is a numeral. -/
def parse? (t : Text) : Option Numeral :=
  let (negative, unsigned) := splitSign t
  let (whole, afterWhole) := splitDigits unsigned
  let (fraction, afterFraction) := splitFraction afterWhole
  if whole.isEmpty && (fraction.getD []).isEmpty then none
  else (parseExponent? afterFraction).map fun exponent => ⟨negative, whole, fraction, exponent⟩

def isInteger (n : Numeral) : Bool := n.fraction.isNone && n.exponent.isNone

/-- The digits of the numeral as one number and the power of ten to multiply it with. -/
def decimal (n : Numeral) : Decimal where
  coefficient := Text.decimalValue (n.whole ++ n.fraction.getD [])
  exponent :=
    (match n.exponent with
      | none => 0
      | some (true, digits) => -(Text.decimalValue digits : Int)
      | some (false, digits) => Text.decimalValue digits) - (n.fraction.getD []).length

/-- The number that the numeral spelt `t` denotes. -/
def value (n : Numeral) (t : Text) : Except ArithmeticFault Number :=
  if n.isInteger then
    if digitLimit < n.whole.length then .error (.numeralTooLong t.length)
    else
      let size : Int := Text.decimalValue n.whole
      .ok (.int (if n.negative then -size else size))
  else match Binary64.ofDecimal n.negative n.decimal with
    | some x => .ok (.real x)
    | none => .error (.numeralOutOfRange t)

end Numeral

end MiniLisp
