import MiniLisp.Datum.Written
import MiniLisp.Text.Quotation

/-!
# Trees in messages

Messages show trees in two ways. `Tree.display` is close to the notation, with long atoms cut in the
middle (`Text.shorten`). `Tree.inspect` spells the structure out, forms of atoms included.
-/

namespace MiniLisp

namespace Text

/-- Stands where a shortened text was cut. -/
def ellipsis : Text := "⠤"

/-- The least number of code points that a text is cut to. -/
def leastWidth : Int := 6

/-- The text escaped and, if it is longer than `width`, cut to it: its start and its end stay, the
start being the longer one if they differ. Without a positive width nothing is cut. -/
def shorten (t : Text) (width : Int) : Text :=
  let e := Text.escape t false
  if width ≤ 0 ∨ e.length ≤ max width leastWidth then e
  else
    let keep := (max width leastWidth).toNat - 1
    e.take ((keep + 1) / 2) ++ ellipsis ++ e.drop (e.length - keep / 2)

/-- Pieces in the order of a tuple: between parentheses, with a comma after a lone one. -/
def tuple : List Text → Text
  | [t] => "(" ++ t ++ ",)"
  | ts => "(" ++ Text.join ", " ts ++ ")"

end Text

/-- A form as an inspected atom shows it. -/
def Form.inspect : Form → Text
  | .bare => "<Form.BARE: 'bare'>"
  | .quoted => "<Form.QUOTED: 'quoted'>"
  | .guarded => "<Form.GUARDED: 'guarded'>"

def Atom.inspect (a : Atom) : Text :=
  "Atom(text=" ++ Text.quotation a.text ++ ", form=" ++ a.form.inspect ++
    ")"

namespace Tree

variable {α : Type}

/-- The tree for a message, every atom cut to `width`. -/
def display (leaf : α → Text) (width : Int) : Tree α → Text :=
  fold {
    atom := fun a => Text.shorten a.text width
    list := fun items => Text.inParens (Text.join " " items)
    map := fun key value rest =>
      Text.inParens (Text.join " " (Text.entry key value :: rest.map fun e => Text.entry e.1 e.2))
    leaf }

theorem display_list (leaf : α → Text) (width : Int) (items : List (Tree α)) :
    (list items).display leaf width =
      Text.inParens (Text.join " " (items.map (display leaf width))) := by
  rw [display, fold_list]

theorem display_map (leaf : α → Text) (width : Int) (key value : Tree α)
    (rest : List (Tree α × Tree α)) :
    (map key value rest).display leaf width =
      Text.inParens (Text.join " " (((key, value) :: rest).map fun e =>
        Text.entry (e.1.display leaf width) (e.2.display leaf width))) := by
  simp only [display, fold_map, List.map_cons, List.map_map]
  rfl

/-- The tree with its structure spelt out. -/
def inspect (leaf : α → Text) : Tree α → Text :=
  fold {
    atom := Atom.inspect
    list := fun items => "List(items=" ++ Text.tuple items ++ ")"
    map := fun key value rest =>
      "Map(entries=" ++
        Text.tuple (((key, value) :: rest).map fun e => Text.tuple [e.1, e.2]) ++ ")"
    leaf }

end Tree

end MiniLisp
