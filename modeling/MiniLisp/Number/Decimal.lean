import MiniLisp.Number.Binary64
import MiniLisp.Text.Basic

/-!
# Doubles in decimal

`Binary64.ofDecimal` reads a decimal number to the nearest double. `Binary64.shortest` goes back:
**the fewest digits that read back to the same double**, of two such decimals the nearer one, of two
equally near ones the even one. A candidate counts only if reading it gives the double again, and
the last resort is the exact decimal expansion. `Binary64.toText` lays the digits out, positionally
where the number is neither large nor small.
-/

namespace MiniLisp

/-- The number `coefficient * 10 ^ exponent`. -/
structure Decimal where
  coefficient : Nat
  exponent : Int
  deriving DecidableEq

/-- How many decimal digits a number has; zero has none. -/
def decimalLength (n : Nat) : Nat := if n = 0 then 0 else (Nat.toDigits 10 n).length

/-- The `k` with `10 ^ (k - 1) ≤ n / d < 10 ^ k`, for positive `n` and `d`. -/
def decimalPoint (n d : Nat) : Int :=
  if d ≤ n then decimalLength (n / d) else 1 - decimalLength ((d - 1) / n)

namespace Binary64

def zero (negative : Bool) : Binary64 := ⟨negative, 0, 0, by decide⟩

/-- The double nearest to a decimal number, or nothing if that is out of range. Beyond `10 ^ 400`
and below `10 ^ -400` the answer needs no power of ten. -/
def ofDecimal (negative : Bool) (x : Decimal) : Option Binary64 :=
  let point := decimalLength x.coefficient + x.exponent
  if x.coefficient = 0 ∨ point < -400 then some (zero negative)
  else if 400 < point then none
  else if 0 ≤ x.exponent then ofRatio negative (x.coefficient * Nat.pow 10 x.exponent.toNat) 1
  else ofRatio negative x.coefficient (Nat.pow 10 (-x.exponent).toNat)

/-- The decimal of `count` digits that reads back to `x` and is nearest to it, if one does. -/
def readingBack? (x : Binary64) (count : Nat) : Option Decimal :=
  let exponent := decimalPoint x.magnitude unit - count
  let n := x.magnitude * Nat.pow 10 (-exponent).toNat
  let d := unit * Nat.pow 10 exponent.toNat
  let nearest := roundDiv n d
  let other := if nearest = n / d then nearest + 1 else nearest - 1
  [nearest, other].map (⟨·, exponent⟩) |>.find? fun y => ofDecimal x.negative y = some x

/-- The exact decimal expansion. -/
def expansion (x : Binary64) : Decimal := ⟨x.magnitude * Nat.pow 5 1074, -1074⟩

/-- The shortest decimal that reads back to `x`, for `x` other than zero. -/
def shortest (x : Binary64) : Decimal :=
  ((List.range 17).findSome? fun k => x.readingBack? (k + 1)).getD x.expansion

end Binary64

/-- How a decimal number is laid out: scientific exponents from `least` up to below `limit` are
written positionally, other exponents with a sign and at least `width` digits. -/
structure DecimalLayout where
  least : Int
  limit : Int
  width : Nat

/-- `0.0001` and `123456789012345.6`, but `1e-05` and `1e+16`. -/
def DecimalLayout.standard : DecimalLayout := ⟨-4, 16, 2⟩

private def zeros (count : Nat) : Text := List.replicate count (CodePoint.ofChar '0')

/-- Write `0.digits * 10 ^ point`, where the first digit is not a zero. -/
def DecimalLayout.write (layout : DecimalLayout) (digits : Text) (point : Int) : Text :=
  let scientific := point - 1
  if layout.least ≤ scientific ∧ scientific < layout.limit then
    if point ≤ 0 then "0." ++ zeros (-point).toNat ++ digits
    else if digits.length ≤ point.toNat then
      digits ++ zeros (point.toNat - digits.length) ++ ".0"
    else digits.take point.toNat ++ (CodePoint.ofChar '.' :: digits.drop point.toNat)
  else
    let fraction := digits.drop 1
    let size := Text.ofNat scientific.natAbs
    digits.take 1 ++ (if fraction.isEmpty then [] else CodePoint.ofChar '.' :: fraction) ++
      "e" ++ (if scientific < 0 then "-" else "+") ++
      zeros (layout.width - size.length) ++ size

/-- A double in decimal, with the fewest digits that read back. -/
def Binary64.toText (x : Binary64) : Text :=
  let sign : Text := if x.negative then "-" else ""
  if x.isZero then sign ++ "0.0"
  else
    let y := x.shortest
    let digits := Text.ofNat y.coefficient
    let significant := (digits.reverse.dropWhile (· = CodePoint.ofChar '0')).reverse
    sign ++ DecimalLayout.standard.write significant (digits.length + y.exponent)

end MiniLisp
