import MiniLisp.Number.Decimal

/-!
# Numbers

A number is an integer of any size or a finite double. Arithmetic keeps integers exact and turns to
doubles as soon as one takes part, the integer being converted first. A quotient is always a double.

A result that leaves the range of doubles is carried along as no number (`none`): later operands are
still checked, and only the final result is refused. So every operation takes the result so far and
one more number.
-/

namespace MiniLisp

/-- An integer or a finite double. -/
inductive Number
  | int (n : Int)
  | real (x : Binary64)
  deriving DecidableEq

/-- Why arithmetic has no numeral as its result. -/
inductive ArithmeticFault
  | numeralTooLong (length : Nat)
  | numeralOutOfRange (numeral : Text)
  | resultOutOfRange
  | resultTooLong
  | divisionByZero
  | moduloByZero
  | integerTooLarge (operation : Text)
  | quotientTooLarge (operation : Text)
  deriving DecidableEq

/-- No integer is read from, or written with, more digits than this. -/
def digitLimit : Nat := 4300

namespace Number

/-- An operation on the result so far, which may have left the range of doubles, and a number. -/
abbrev Operation := Option Number → Number → Except ArithmeticFault (Option Number)

/-- The double of a number, in an operation that reports itself as `operation`. -/
def toReal (operation : Text) : Number → Except ArithmeticFault Binary64
  | .int n => match Binary64.ofInt n with
    | some x => .ok x
    | none => .error (.integerTooLarge operation)
  | .real x => .ok x

/-- The double of a result so far. -/
def resultToReal (operation : Text) : Option Number → Except ArithmeticFault (Option Binary64)
  | none => .ok none
  | some x => (x.toReal operation).map some

/-- An operation given for two integers and for two doubles. -/
def operate (operation : Text) (ints : Int → Int → Except ArithmeticFault (Option Number))
    (reals : Option Binary64 → Binary64 → Except ArithmeticFault (Option Binary64)) : Operation
  | some (.int m), .int n => ints m n
  | x, y => do
    let x ← resultToReal operation x
    let y ← y.toReal operation
    return (← reals x y).map .real

def add : Operation :=
  operate "add" (fun m n => .ok (some (.int (m + n)))) fun x y => .ok (x.bind (·.add y))

def sub : Operation :=
  operate "sub" (fun m n => .ok (some (.int (m - n)))) fun x y => .ok (x.bind (·.sub y))

def mul : Operation :=
  operate "mul" (fun m n => .ok (some (.int (m * n)))) fun x y => .ok (x.bind (·.mul y))

/-- The quotient of two integers is rounded once, from its exact value. -/
def divInt (m n : Int) : Except ArithmeticFault (Option Number) :=
  if n = 0 then .error .divisionByZero
  else match Binary64.ofRatio ((m < 0) != (n < 0)) m.natAbs n.natAbs with
    | some x => .ok (some (.real x))
    | none => .error (.quotientTooLarge "div")

def div : Operation :=
  operate "div" divInt fun x y =>
    if y.isZero then .error .divisionByZero else .ok (x.bind (·.div y))

def neg : Number → Number
  | .int n => .int (-n)
  | .real x => .real x.neg

/-- Apply an operation to the result so far and each number in turn. -/
def accumulate (operation : Operation) (start : Option Number) (numbers : List Number) :
    Except ArithmeticFault (Option Number) :=
  numbers.foldlM operation start

/-- Order of two numbers by their exact values. -/
def compare : Number → Number → Ordering
  | .int m, .int n => Ord.compare m n
  | .int m, .real y => Binary64.compareInt m y
  | .real x, .int n => (Binary64.compareInt n x).swap
  | .real x, .real y => x.compare y

/-- The numeral of a result. A double below `10 ^ 16` that is an integer is written as one. -/
def write : Option Number → Except ArithmeticFault Text
  | none => .error .resultOutOfRange
  | some (.int n) =>
    if n.natAbs < Nat.pow 10 digitLimit then .ok (Text.ofInt n) else .error .resultTooLong
  | some (.real x) =>
    match x.toInt? with
    | some n => if n.natAbs < Nat.pow 10 16 then .ok (Text.ofInt n) else .ok x.toText
    | none => .ok x.toText

end Number

end MiniLisp
