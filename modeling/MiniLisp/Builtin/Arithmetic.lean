import MiniLisp.Error
import MiniLisp.Value

/-!
# Arithmetic builtins

Sums, differences, products, quotients and comparisons of numerals. All arguments have to be
numbers before any of them is used. Comparisons hold for every neighbouring pair.
-/

namespace MiniLisp.Arithmetic

/-- An arithmetic fault as an error. -/
def checked {α : Type} : Except ArithmeticFault α → Except Error α
  | .ok a => .ok a
  | .error fault => .error (.arithmetic fault)

/-- The number that an argument of `builtin` is. -/
def number (builtin : Text) (arg : Value) : Except Error Number := do
  let found ← match arg with
    | .atom a => checked a.number?
    | _ => .ok none
  match found with
  | some n => return n
  | none => throw (.mismatch (.notNumber builtin (arg.display 20)))

/-- The numbers that the arguments of `builtin` are. -/
def numbers (builtin : Text) (args : List Value) : Except Error (List Number) :=
  args.mapM (number builtin)

/-- The numeral of a result. -/
def numeral (n : Option Number) : Except Error Value := do
  return .atom (← checked (Atom.ofNumber n))

def sum (args : List Value) : Except Error Value := do
  let ns ← numbers Builtin.add.name args
  numeral (← checked (Number.accumulate Number.add (some (.int 0)) ns))

/-- The first number less all others, or the opposite of a single one. -/
def difference (args : List Value) : Except Error Value := do
  match ← numbers Builtin.sub.name args with
  | [] => throw (.arity Builtin.sub.name (.atLeast 1) 0)
  | [n] => numeral (some n.neg)
  | n :: ns => numeral (← checked (Number.accumulate Number.sub (some n) ns))

def product (args : List Value) : Except Error Value := do
  let ns ← numbers Builtin.mul.name args
  numeral (← checked (Number.accumulate Number.mul (some (.int 1)) ns))

/-- The first number divided by all others in turn, or the reciprocal of a single one. -/
def quotient (args : List Value) : Except Error Value := do
  match ← numbers Builtin.div.name args with
  | [] => throw (.arity Builtin.div.name (.atLeast 1) 0)
  | [n] => numeral (← checked (Number.div (some (.int 1)) n))
  | n :: ns => numeral (← checked (Number.accumulate Number.div (some n) ns))

/-- The remainder of two integers, with the sign of the divisor. -/
def modulo (n d : Value) : Except Error Value := do
  match ← number Builtin.mod.name n, ← number Builtin.mod.name d with
  | .int n, .int d =>
    if d = 0 then throw (.arithmetic .moduloByZero) else numeral (some (.int (Int.fmod n d)))
  | _, _ => throw (.mismatch .notInteger)

/-- Whether every two neighbours are related. -/
def chained {α : Type} (related : α → α → Bool) : List α → Bool
  | a :: b :: rest => related a b && chained related (b :: rest)
  | _ => true

/-- Whether every two neighbouring numbers compare as `accept` demands. -/
def comparison (builtin : Builtin) (accept : Ordering → Bool) (args : List Value) :
    Except Error Value := do
  if args.length < 2 then throw (.arity builtin.name (.atLeast 2) args.length)
  let ns ← numbers builtin.name args
  return Value.ofBool (chained (fun a b => accept (a.compare b)) ns)

end MiniLisp.Arithmetic
