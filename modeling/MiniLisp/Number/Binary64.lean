/-!
# Finite doubles

A finite double is a sign and a magnitude `mantissa * 2 ^ exponent`, counted in units of
`2 ^ -1074`, the least positive double. So every double is an integer number of units (`scaled`),
and an exact result is a ratio of integers in the same unit.

* `round`: the double nearest to an exact ratio, a tie going to the even mantissa; there is none
  once the magnitude reaches `2 ^ 1024` less half a step.
* `add`, `mul`, `div`, `ofInt`, `ofRatio`: each is its exact result, rounded once.
* `compareInt`, `compare`: comparisons without rounding.
-/

namespace MiniLisp

/-- `2 ^ 52`, the least mantissa of full length. -/
def leastFull : Nat := 0x10000000000000

/-- The pairs that stand for one magnitude each: a mantissa of full length, or a shorter one at
exponent zero. -/
def Canonical (mantissa exponent : Nat) : Prop :=
  mantissa < 2 * leastFull ∧ (leastFull ≤ mantissa ∨ exponent = 0) ∧ exponent ≤ 2045

instance (m p : Nat) : Decidable (Canonical m p) := by unfold Canonical; infer_instance

/-- A finite double, `± mantissa * 2 ^ exponent` units of `2 ^ -1074`. -/
structure Binary64 where
  negative : Bool
  mantissa : Nat
  exponent : Nat
  canonical : Canonical mantissa exponent
  deriving DecidableEq

/-- `n / d` to the nearest integer, a half going to the even neighbour. -/
def roundDiv (n d : Nat) : Nat :=
  let q := n / d
  let r := n % d
  if 2 * r < d ∨ (2 * r = d ∧ q % 2 = 0) then q else q + 1

namespace Binary64

/-- One, in units. -/
def unit : Nat := Nat.pow 2 1074

/-- The magnitude in units. -/
def magnitude (x : Binary64) : Nat := x.mantissa * Nat.pow 2 x.exponent

/-- The value in units. -/
def scaled (x : Binary64) : Int := if x.negative then -x.magnitude else x.magnitude

def isZero (x : Binary64) : Bool := x.mantissa = 0

/-- The double with this sign, mantissa and exponent, if the two are in canonical form. -/
def make? (negative : Bool) (mantissa exponent : Nat) : Option Binary64 :=
  if h : Canonical mantissa exponent then some ⟨negative, mantissa, exponent, h⟩ else none

/-- The double nearest to `n / d` units, or nothing if that is out of range. -/
def round (negative : Bool) (n d : Nat) : Option Binary64 :=
  let exponent := (n / d).log2 - 52
  let mantissa := roundDiv n (d * Nat.pow 2 exponent)
  if mantissa = 2 * leastFull then make? negative leastFull (exponent + 1)
  else make? negative mantissa exponent

/-- The double nearest to `n / d`. -/
def ofRatio (negative : Bool) (n d : Nat) : Option Binary64 := round negative (n * unit) d

/-- The double nearest to an integer. -/
def ofInt (n : Int) : Option Binary64 := ofRatio (n < 0) n.natAbs 1

def neg (x : Binary64) : Binary64 := { x with negative := !x.negative }

/-- Rounded sum; a zero sum is negative only if both summands are. -/
def add (x y : Binary64) : Option Binary64 :=
  let sum := x.scaled + y.scaled
  round (if sum = 0 then x.negative && y.negative else sum < 0) sum.natAbs 1

def sub (x y : Binary64) : Option Binary64 := x.add y.neg

def mul (x y : Binary64) : Option Binary64 :=
  round (x.negative != y.negative) (x.magnitude * y.magnitude) unit

/-- Rounded quotient, for a divisor other than zero. -/
def div (x y : Binary64) : Option Binary64 :=
  round (x.negative != y.negative) (x.magnitude * unit) y.magnitude

/-- Order of two doubles as numbers; the two zeros are equal. -/
def compare (x y : Binary64) : Ordering := Ord.compare x.scaled y.scaled

/-- Order of an integer and a double as numbers. -/
def compareInt (n : Int) (x : Binary64) : Ordering := Ord.compare (n * unit) x.scaled

/-- The integer that the double is, if it is one. -/
def toInt? (x : Binary64) : Option Int :=
  if x.magnitude % unit = 0 then
    let n : Nat := x.magnitude / unit
    some (if x.negative then -n else n)
  else none

end Binary64

end MiniLisp
