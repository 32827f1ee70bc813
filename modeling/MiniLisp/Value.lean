import MiniLisp.Environment
import MiniLisp.Tree.Display

/-!
# Values

A value is a tree whose leaves are functions: builtins, and closures that remember the scope they
were made in. Functions are compared by identity. A closure is told apart by its serial number; a
builtin by the copy it belongs to, since every standard scope holds copies of its own.
-/

namespace MiniLisp

/-- The functions that every standard scope offers. -/
inductive Builtin
  | add | sub | mul | div | mod
  | equal | unequal | less | lessEqual | greater | greaterEqual
  | not
  | list | first | tail | cons | count | get | keys | values
  | isAtom | isList | isMap | isFunction
  | concat | toText | read | print
  deriving DecidableEq

namespace Builtin

/-- The builtins in the order in which a standard scope binds them. -/
def all : List Builtin :=
  [.add, .sub, .mul, .div, .mod, .equal, .unequal, .less, .lessEqual, .greater, .greaterEqual,
    .not, .list, .first, .tail, .cons, .count, .get, .keys, .values, .isAtom, .isList, .isMap,
    .isFunction, .concat, .toText, .read, .print]

def name : Builtin → Text
  | .add => "+"
  | .sub => "-"
  | .mul => "*"
  | .div => "/"
  | .mod => "mod"
  | .equal => "="
  | .unequal => "!="
  | .less => "<"
  | .lessEqual => "<="
  | .greater => ">"
  | .greaterEqual => ">="
  | .not => "not"
  | .list => "list"
  | .first => "first"
  | .tail => "tail"
  | .cons => "cons"
  | .count => "count"
  | .get => "get"
  | .keys => "keys"
  | .values => "values"
  | .isAtom => "atom?"
  | .isList => "list?"
  | .isMap => "map?"
  | .isFunction => "fn?"
  | .concat => "concat"
  | .toText => "to-text"
  | .read => "read"
  | .print => "print"

def ofName? (name : Text) : Option Builtin := all.find? fun b => b.name = name

end Builtin

/-- A function: a builtin, or a closure with its parameters, body and scope. -/
inductive Callable where
  | builtin (copy : Nat) (op : Builtin)
  | closure (serial : Nat) (params : List Text) (body : Tree Callable)
      (scope : Environment (Tree Callable))

/-- What evaluation works on and gives. -/
abbrev Value := Tree Callable

/-- Where evaluation looks names up. -/
abbrev Scope := Environment Value

namespace Callable

/-- Identity of functions. -/
def same : Callable → Callable → Bool
  | .builtin c b, .builtin c' b' => c = c' && b = b'
  | .closure s _ _ _, .closure s' _ _ _ => s = s'
  | _, _ => false

/-- How messages show a function. -/
def label : Callable → Text
  | .builtin _ b => "<builtin " ++ b.name ++ ">"
  | .closure _ params _ _ => "<closure (" ++ Text.join " " params ++ ")>"

end Callable

namespace Value

/-- Equality up to the forms of atoms, functions by identity. -/
def same (a b : Value) : Bool := Tree.same Callable.same a b

def inspect (v : Value) : Text := Tree.inspect Callable.label v

/-- The value for a message, every atom cut to `width`; zero cuts nothing. -/
def display (v : Value) (width : Int) : Text := Tree.display Callable.label width v

def ofBool (b : Bool) : Value := .atom (Atom.ofBool b)

/-- The value of the first entry of a map whose key is the same as `key`. -/
def entry? (key : Value) (entries : List (Value × Value)) : Option Value :=
  Tree.find? Callable.same key entries

end Value

/-- A scope of one frame with every builtin, each a copy of its own, and the three constants. -/
def Scope.standard (copy : Nat) : Scope :=
  let builtins : Bindings Value := Builtin.all.map fun b => (b.name, .leaf (.builtin copy b))
  let constants : Bindings Value :=
    [("true", Value.ofBool true), ("false", Value.ofBool false), ("nil", Tree.nil)]
  Environment.root (builtins ++ constants)

end MiniLisp
