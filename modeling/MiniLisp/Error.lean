import MiniLisp.Number.Basic
import MiniLisp.ReadError
import MiniLisp.Setting
import MiniLisp.Text.Utf8

/-!
# Errors

Everything that can go wrong, by cause; `Error.message` is the only place that words it. Where a
message shows a value, the error holds the text that is shown.
-/

namespace MiniLisp

/-- How many arguments something takes. -/
inductive Arity
  | exactly (n : Nat)
  | atLeast (n : Nat)
  | either (m n : Nat)
  deriving DecidableEq

/-- The three kinds of trees that a builtin may insist on. -/
inductive Kind
  | atom
  | list
  | map
  deriving DecidableEq

/-- A value of the wrong kind. -/
inductive Mismatch
  /-- An argument of an arithmetic builtin is no number. -/
  | notNumber (builtin shown : Text)
  /-- An argument has to be an atom, a list or a map. -/
  | wrongKind (builtin : Text) (kind : Kind) (shown : Text)
  /-- A modulo is taken of integers only. -/
  | notInteger
  /-- Functions have no size. -/
  | uncountable (shown : Text)
  /-- Functions have no text. -/
  | textless (shown : Text)
  /-- `let` takes a map of bindings. -/
  | bindings (shown : Text)
  /-- Only symbols can be bound, by `let` or by a definition. -/
  | binder (form shown : Text)
  | parameters (shown : Text)
  | parameter (shown : Text)
  | repeatedParameter (names : List Text)
  /-- `apply` takes its arguments as a list. -/
  | arguments (shown : Text)
  /-- Definitions are a map. -/
  | definitions
  deriving DecidableEq

inductive Error
  | read (e : ReadError)
  | encoding (fault : Utf8.Fault)
  | setting (e : SettingError)
  | unbound (name : Text)
  | notCallable (shown : Text)
  | arity (name : Text) (expected : Arity) (received : Nat)
  | mismatch (m : Mismatch)
  | arithmetic (fault : ArithmeticFault)
  | budgetExceeded (budget : Int)
  | depthExceeded (limit : Int)
  /-- A function inside a list or map cannot be written. -/
  | unwritable (shown : Text)
  /-- Neither a text nor an atom, so no name. -/
  | nameless (shown : Text)
  | emptyMap
  | indexOutOfRange
  deriving DecidableEq

def Utf8.Reason.message : Utf8.Reason → Text
  | .invalidStart => "invalid start byte"
  | .invalidContinuation => "invalid continuation byte"
  | .unexpectedEnd => "unexpected end of data"

def Utf8.Fault.message (f : Utf8.Fault) : Text :=
  (if f.length = 1 then
    "'utf-8' codec can't decode byte 0x" ++ Text.hexPadded 2 f.byte ++
      " in position " ++ Text.ofNat f.start
  else
    "'utf-8' codec can't decode bytes in position " ++ Text.ofNat f.start ++
      "-" ++ Text.ofNat (f.start + f.length - 1)) ++ ": " ++ f.reason.message

def Arity.describe : Arity → Text
  | .exactly n => Text.ofNat n
  | .atLeast n => "at least " ++ Text.ofNat n
  | .either m n => Text.ofNat m ++ " or " ++ Text.ofNat n

def Kind.name : Kind → Text
  | .atom => "atom"
  | .list => "list"
  | .map => "map"

def ArithmeticFault.message : ArithmeticFault → Text
  | .numeralTooLong length =>
    "Numeral of " ++ Text.ofNat length ++ " characters is too large"
  | .numeralOutOfRange numeral => "Numeral " ++ numeral ++ " is out of range"
  | .resultOutOfRange => "Arithmetic result is out of range"
  | .resultTooLong => "Arithmetic result has too many digits"
  | .divisionByZero => "Division by zero"
  | .moduloByZero => "Modulo by zero"
  | .integerTooLarge operation => operation ++ ": int too large to convert to float"
  | .quotientTooLarge operation =>
    operation ++ ": integer division result too large for a float"

def Mismatch.message : Mismatch → Text
  | .notNumber builtin shown =>
    "All arguments to " ++ builtin ++ " must be numbers, got " ++ shown
  | .wrongKind builtin kind shown =>
    builtin ++ " expects a " ++ kind.name ++ ", got " ++ shown
  | .notInteger => "All arguments to mod must be integers"
  | .uncountable shown => "count expects a value, got " ++ shown
  | .textless shown => "to-text cannot serialize " ++ shown
  | .bindings shown => "let bindings must be a map, got " ++ shown
  | .binder form shown => form ++ " can only bind symbols, got " ++ shown
  | .parameters shown => "lambda parameters must be a list, got " ++ shown
  | .parameter shown => "lambda parameter must be a symbol, got " ++ shown
  | .repeatedParameter names =>
    "Duplicate lambda parameter in (" ++ Text.join " " names ++ ")"
  | .arguments shown => "apply expects a list of arguments, got " ++ shown
  | .definitions => "define expects a map document of name: value entries"

def Error.message : Error → Text
  | .read e => e.message
  | .encoding fault => fault.message
  | .setting e => e.message
  | .unbound name => "Cannot lookup unbound symbol " ++ name
  | .notCallable shown => "Cannot apply non-function " ++ shown
  | .arity name expected received =>
    name ++ " expects " ++ expected.describe ++ " argument(s), got " ++
      Text.ofNat received
  | .mismatch m => m.message
  | .arithmetic fault => fault.message
  | .budgetExceeded budget => "Step budget of " ++ Text.ofInt budget ++ " exhausted"
  | .depthExceeded limit => "Evaluation nested deeper than " ++ Text.ofInt limit
  | .unwritable shown => "Cannot serialize " ++ shown
  | .nameless shown =>
    "Cannot bind " ++ shown ++ ": names are strings or Atoms"
  | .emptyMap => "A Map needs at least one entry"
  | .indexOutOfRange => "tuple index out of range"

end MiniLisp
