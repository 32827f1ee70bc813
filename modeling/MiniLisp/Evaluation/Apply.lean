import MiniLisp.Builtin.Structure
import MiniLisp.Document.Read
import MiniLisp.Evaluation.Run

/-!
# Applying functions

`Builtin.operation` says what each builtin does, by the number of arguments it takes.
`Callable.apply` applies a function to values: a builtin to the right number of them, a closure by
evaluating its body with its parameters bound in a new frame over the scope it was made in.
-/

namespace MiniLisp

/-- What a builtin does: with one argument, with two, or with any number. -/
inductive Operation
  | unary (f : Value → Run Value)
  | binary (f : Value → Value → Run Value)
  | variadic (f : List Value → Run Value)

/-- How many arguments an operation takes, if that is fixed. -/
def Operation.arity : Operation → Option Nat
  | .unary _ => some 1
  | .binary _ => some 2
  | .variadic _ => none

/-- Perform the operation of the builtin called `name`. -/
def Operation.call (name : Text) : Operation → List Value → Run Value
  | .unary f, [a] => f a
  | .unary _, args => Run.fail (.arity name (.exactly 1) args.length)
  | .binary f, [a, b] => f a b
  | .binary _, args => Run.fail (.arity name (.exactly 2) args.length)
  | .variadic f, args => f args

/-- Read a text as a document, within the nesting that the limits allow. -/
def Run.read (t : Text) : Run Value := do
  let (result, events) := (Source.text t).read (← Run.limits).nesting
  Run.modify fun p => p.record events
  let d ← result
  return d

/-- Print values on a line, with spaces between them. -/
def Run.print (args : List Value) : Run Value := do
  let texts ← Run.ofExcept (args.mapM Structure.shown)
  Run.printLine (Text.join " " texts)
  return Tree.nil

/-- What a builtin does. -/
def Builtin.operation : Builtin → Operation
  | .add => .variadic fun args => Arithmetic.sum args
  | .sub => .variadic fun args => Arithmetic.difference args
  | .mul => .variadic fun args => Arithmetic.product args
  | .div => .variadic fun args => Arithmetic.quotient args
  | .mod => .binary fun n d => Arithmetic.modulo n d
  | .equal => .variadic fun args => return Value.ofBool (Structure.allEqual args)
  | .unequal => .variadic fun args => return Value.ofBool (!Structure.allEqual args)
  | .less => .variadic fun args => Arithmetic.comparison .less Ordering.isLT args
  | .lessEqual => .variadic fun args => Arithmetic.comparison .lessEqual Ordering.isLE args
  | .greater => .variadic fun args => Arithmetic.comparison .greater Ordering.isGT args
  | .greaterEqual => .variadic fun args => Arithmetic.comparison .greaterEqual Ordering.isGE args
  | .not => .unary fun a => return Value.ofBool (!a.isTrue)
  | .list => .variadic fun args => return .list args
  | .first => .unary fun a => Structure.first a
  | .tail => .unary fun a => Structure.tail a
  | .cons => .binary fun a b => Structure.cons a b
  | .count => .unary fun a => Structure.count a
  | .get => .variadic fun args => Structure.get args
  | .keys => .unary fun a => Structure.keys a
  | .values => .unary fun a => Structure.values a
  | .isAtom => .unary fun a => return Value.ofBool (Structure.isAtom a)
  | .isList => .unary fun a => return Value.ofBool (Structure.isList a)
  | .isMap => .unary fun a => return Value.ofBool (Structure.isMap a)
  | .isFunction => .unary fun a => return Value.ofBool (!a.isTree)
  | .concat => .variadic fun args => Structure.concat args
  | .toText => .unary fun a => Structure.toText a
  | .read => .unary fun a => do Run.read (← Structure.expectAtom .read a)
  | .print => .variadic Run.print

/-- How many arguments a builtin takes, if that is fixed. -/
def Builtin.arity (b : Builtin) : Option Nat := b.operation.arity

/-- The way in which an expression is evaluated in a scope. -/
abbrev Evaluate := Value → Scope → Run Value

/-- Apply a function to values, evaluating the body of a closure by `evaluate`. -/
def Callable.apply (evaluate : Evaluate) (args : List Value) : Callable → Run Value
  | .builtin _ b => b.operation.call b.name args
  | .closure _ params body scope =>
    if params.length = args.length then evaluate body (scope.extend (params.zip args))
    else Run.fail (.arity "lambda" (.exactly params.length) args.length)

end MiniLisp
