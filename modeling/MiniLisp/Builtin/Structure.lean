import MiniLisp.Builtin.Arithmetic

/-!
# Builtins on lists, maps and texts

These functions take values apart and put them together. None of them evaluates, prints or reads
anything.
-/

namespace MiniLisp

/-- A value without functions as a datum. -/
def Value.datum (v : Value) : Except Error Datum :=
  match v.toDatum with
  | .ok d => .ok d
  | .error f => .error (.unwritable f.label)

/-- The text of a value without functions. -/
def Value.serialize (v : Value) : Except Error Text := v.datum.map Datum.serialize

/-- Whether the value is a tree rather than a function. -/
def Value.isTree : Value → Bool
  | .leaf _ => false
  | _ => true

/-- The map with these entries, of which there has to be one. -/
def Value.ofEntries (entries : List (Value × Value)) : Except Error Value :=
  match Tree.ofEntries? entries with
  | some v => .ok v
  | none => .error .emptyMap

/-- The text of an atom, and the structure of any other value. -/
def Value.plain : Value → Text
  | .atom a => a.text
  | v => v.inspect

/-- The item with an index; negative ones count from the end. -/
def Value.item (items : List Value) (index : Int) : Except Error Value :=
  let place := if index < 0 then index + items.length else index
  match if place < 0 then none else items[place.toNat]? with
  | some v => .ok v
  | none => .error .indexOutOfRange

/-- The key that a value is for a binding: only an atom can be one. -/
def Value.bindingKey : Value → Except Error BindingKey
  | .atom a => .ok (.atom a.text)
  | v => .error (.nameless v.inspect)

namespace Structure

/-- The error for an argument of `builtin` that is not of the kind it expects. -/
def wrongKind {α : Type} (builtin : Builtin) (kind : Kind) (arg : Value) : Except Error α :=
  .error (.mismatch (.wrongKind builtin.name kind (arg.display 20)))

/-- The items of a list. -/
def expectList (builtin : Builtin) : Value → Except Error (List Value)
  | .list items => .ok items
  | arg => wrongKind builtin .list arg

/-- The entries of a map. -/
def expectMap (builtin : Builtin) : Value → Except Error (List (Value × Value))
  | .map k v rest => .ok ((k, v) :: rest)
  | arg => wrongKind builtin .map arg

/-- The text of an atom. -/
def expectAtom (builtin : Builtin) : Value → Except Error Text
  | .atom a => .ok a.text
  | arg => wrongKind builtin .atom arg

/-- Whether every two neighbouring arguments are equal. -/
def allEqual (args : List Value) : Bool := Arithmetic.chained Value.same args

/-- The first item of a list, or the empty list if there is none. -/
def first (arg : Value) : Except Error Value :=
  return (← expectList .first arg).head?.getD Tree.nil

def tail (arg : Value) : Except Error Value :=
  return .list (← expectList .tail arg).tail

def cons (head rest : Value) : Except Error Value :=
  return .list (head :: (← expectList .cons rest))

/-- How many code points, items or entries there are. -/
def count (arg : Value) : Except Error Value :=
  match arg with
  | .atom a => Arithmetic.numeral (some (.int a.text.length))
  | .list items => Arithmetic.numeral (some (.int items.length))
  | .map _ _ rest => Arithmetic.numeral (some (.int (rest.length + 1)))
  | .leaf _ => .error (.mismatch (.uncountable (arg.display 20)))

/-- The value of the first entry with an equal key, or else the default. -/
def get : List Value → Except Error Value
  | [mapping, key] => return (Value.entry? key (← expectMap .get mapping)).getD Tree.nil
  | [mapping, key, default] => return (Value.entry? key (← expectMap .get mapping)).getD default
  | args => .error (.arity Builtin.get.name (.either 2 3) args.length)

def keys (arg : Value) : Except Error Value :=
  return .list ((← expectMap .keys arg).map Prod.fst)

def values (arg : Value) : Except Error Value :=
  return .list ((← expectMap .values arg).map Prod.snd)

def isAtom : Value → Bool
  | .atom _ => true
  | _ => false

def isList : Value → Bool
  | .list _ => true
  | _ => false

def isMap : Value → Bool
  | .map _ _ _ => true
  | _ => false

/-- The texts of atoms put together, as a quoted atom. -/
def concat (args : List Value) : Except Error Value :=
  return .atom (Atom.quoted (← args.mapM (expectAtom .concat)).flatten)

/-- The text of a value, as a quoted atom. -/
def toText (arg : Value) : Except Error Value :=
  match arg with
  | .leaf _ => .error (.mismatch (.textless (arg.display 0)))
  | _ => return .atom (Atom.quoted (← arg.serialize))

/-- What printing shows: an atom's plain text, a function's label, any other value as written. -/
def shown (arg : Value) : Except Error Text :=
  match arg with
  | .atom a => .ok a.text
  | .leaf f => .ok f.label
  | _ => arg.serialize

end Structure

end MiniLisp
