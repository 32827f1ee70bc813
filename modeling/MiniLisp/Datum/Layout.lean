import MiniLisp.Datum.Written

/-!
# Data over several lines

`Datum.pretty` keeps a datum on one line if that line, with its indentation, fits; otherwise every
item or entry gets a line of its own, one level further in, between a line with `(` and a line with
`)`. Atoms are never broken, and neither are keys. A document is laid out without its outermost
parentheses, its items at the left margin.
-/

namespace MiniLisp

/-- How far in each level is, and how long a line may get. Neither has to be positive. -/
structure LayoutOptions where
  indent : Int
  width : Int

namespace LayoutOptions

/-- The indentation of a level; a negative one is no indentation. -/
def pad (o : LayoutOptions) (level : Nat) : Text := Text.spaces (level * o.indent)

/-- Whether a text fits on a line of its level. -/
def fits (o : LayoutOptions) (level : Nat) (t : Text) : Bool :=
  t.length + level * o.indent ≤ o.width

end LayoutOptions

/-- Lines put together, with a line feed between neighbours. -/
def Text.lines (ls : List Text) : Text := Text.join "\n" ls

/-- The lines of a broken list or map at `level`, given those of its parts. -/
def Text.block (o : LayoutOptions) (level : Nat) (parts : List Text) : Text :=
  Text.lines ([Text.ofString "("] ++ parts ++ [o.pad level ++ ")"])

namespace Datum

mutual

/-- A datum at `level`, from where its indentation ends. -/
def layout (o : LayoutOptions) (level : Nat) : Datum → Text
  | .atom a => a.serialize
  | .list items =>
    if o.fits level (serialize (.list items)) then serialize (.list items)
    else Text.block o level (layoutItems o (level + 1) items)
  | .map key value rest =>
    if o.fits level (serialize (.map key value rest)) then serialize (.map key value rest)
    else Text.block o level
      (Text.entry (o.pad (level + 1) ++ serialize key) (layout o (level + 1) value) ::
        layoutEntries o (level + 1) rest)
  | .leaf a => a.elim

/-- Every item at `level`, with its indentation. -/
def layoutItems (o : LayoutOptions) (level : Nat) : List Datum → List Text
  | [] => []
  | item :: items => (o.pad level ++ layout o level item) :: layoutItems o level items

/-- Every entry at `level`, with its indentation. -/
def layoutEntries (o : LayoutOptions) (level : Nat) : List (Datum × Datum) → List Text
  | [] => []
  | (key, value) :: rest =>
    Text.entry (o.pad level ++ serialize key) (layout o level value) :: layoutEntries o level rest

end

/-- A datum, or with `document` a whole document, over as many lines as it takes. -/
def pretty (o : LayoutOptions) (document : Bool) (d : Datum) : Text :=
  if document then
    match d with
    | .atom a => a.serialize
    | .list items =>
      if o.fits 0 (serializeDocument d) then serializeDocument d
      else Text.lines (layoutItems o 0 items)
    | .map key value rest =>
      if o.fits 0 (serializeDocument d) then serializeDocument d
      else Text.lines (layoutEntries o 0 ((key, value) :: rest))
    | .leaf a => a.elim
  else layout o 0 d

end Datum

end MiniLisp
