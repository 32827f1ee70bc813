import MiniLisp.Tree

/-!
# Data in writing

`Datum.serialize` writes a datum on one line: items between parentheses with a space between them,
entries as `key: value`. A whole document is written without the outermost parentheses
(`Datum.serializeDocument`).
-/

namespace MiniLisp

/-- Between parentheses. -/
def Text.inParens (t : Text) : Text := "(" ++ t ++ ")"

/-- An entry of a map, given its two sides in writing. -/
def Text.entry (key value : Text) : Text := key ++ ": " ++ value

namespace Datum

/-- A datum on one line. -/
def serialize : Datum → Text :=
  Tree.fold {
    atom := Atom.serialize
    list := fun items => Text.inParens (Text.join " " items)
    map := fun key value rest =>
      Text.inParens (Text.join " " (Text.entry key value :: rest.map fun e => Text.entry e.1 e.2))
    leaf := Empty.elim }

/-- An entry on one line. -/
def serializeEntry (e : Datum × Datum) : Text := Text.entry (serialize e.1) (serialize e.2)

/-- The items or entries of a datum on one line, without parentheses around them. -/
def serializeDocument : Datum → Text
  | .atom a => a.serialize
  | .list items => Text.join " " (items.map serialize)
  | .map key value rest => Text.join " " (((key, value) :: rest).map serializeEntry)
  | .leaf a => a.elim

@[simp] theorem serialize_atom (a : Atom) : serialize (.atom a) = a.serialize := rfl

/-- A list or map is its document between parentheses. -/
theorem serialize_list (items : List Datum) :
    serialize (.list items) = Text.inParens (serializeDocument (.list items)) := by
  simp only [serialize, serializeDocument, Tree.fold_list]

theorem serialize_map (key value : Datum) (rest : List (Datum × Datum)) :
    serialize (.map key value rest) =
      Text.inParens (serializeDocument (.map key value rest)) := by
  simp only [serialize, serializeDocument, Tree.fold_map, List.map_cons, List.map_map]
  rfl

end Datum

end MiniLisp
