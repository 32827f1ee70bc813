import MiniLisp.Atom

/-!
# Trees of atoms, lists and maps

Documents and values share one shape: an atom, a list of trees, or a map, which is a non-empty list
of entries whose keys may repeat and may be any trees. `Tree α` also has leaves of another type `α`.
A `Datum` is a tree without them, which is what a document reads as; values have functions there.

Functions on trees recurse as deep as a tree nests. The stack is assumed to have room for that, so
that nesting is bounded only by the limits that reading and evaluation are given.

* `Tree.fold`: one recursion for every function that is defined from the parts of a tree, with
  `fold_list` and `fold_map` in terms of `List.map`.
* `Tree.induct`: induction, with the items of a list and the entries of a map as hypotheses.
* `Tree.same`: equality up to the forms of atoms.
-/

namespace MiniLisp

/-- An atom, a list, a map with a first entry and the rest, or a leaf. -/
inductive Tree (α : Type) where
  | atom (a : Atom)
  | list (items : List (Tree α))
  | map (key value : Tree α) (rest : List (Tree α × Tree α))
  | leaf (a : α)

/-- A tree that can be written down: no leaves. -/
abbrev Datum := Tree Empty

namespace Tree

variable {α β γ : Type}

/-- The empty list. -/
def nil : Tree α := .list []

instance : Inhabited (Tree α) := ⟨nil⟩

/-- The map of a non-empty list of entries. -/
def ofEntries? : List (Tree α × Tree α) → Option (Tree α)
  | [] => none
  | (k, v) :: rest => some (.map k v rest)

/-- What a fold makes of each kind of tree, given what it made of the parts. -/
structure Algebra (α β : Type) where
  atom : Atom → β
  list : List β → β
  map : β → β → List (β × β) → β
  leaf : α → β

mutual

/-- Replace every part of a tree by what the algebra makes of it. -/
def fold (f : Algebra α β) : Tree α → β
  | .atom a => f.atom a
  | .list items => f.list (foldItems f items)
  | .map k v rest => f.map (fold f k) (fold f v) (foldEntries f rest)
  | .leaf a => f.leaf a

def foldItems (f : Algebra α β) : List (Tree α) → List β
  | [] => []
  | t :: ts => fold f t :: foldItems f ts

def foldEntries (f : Algebra α β) : List (Tree α × Tree α) → List (β × β)
  | [] => []
  | (k, v) :: rest => (fold f k, fold f v) :: foldEntries f rest

end

theorem foldItems_eq (f : Algebra α β) (ts : List (Tree α)) :
    foldItems f ts = ts.map (fold f) := by
  induction ts with
  | nil => rfl
  | cons t ts ih => simp [foldItems, ih]

theorem foldEntries_eq (f : Algebra α β) (es : List (Tree α × Tree α)) :
    foldEntries f es = es.map fun e => (fold f e.1, fold f e.2) := by
  induction es with
  | nil => rfl
  | cons e es ih => simp [foldEntries, ih]

@[simp] theorem fold_atom (f : Algebra α β) (a : Atom) : fold f (.atom a) = f.atom a := rfl

@[simp] theorem fold_leaf (f : Algebra α β) (a : α) : fold f (.leaf a) = f.leaf a := rfl

@[simp] theorem fold_list (f : Algebra α β) (ts : List (Tree α)) :
    fold f (.list ts) = f.list (ts.map (fold f)) := by
  rw [fold, foldItems_eq]

@[simp] theorem fold_map (f : Algebra α β) (k v : Tree α) (rest : List (Tree α × Tree α)) :
    fold f (.map k v rest) =
      f.map (fold f k) (fold f v) (rest.map fun e => (fold f e.1, fold f e.2)) := by
  rw [fold, foldEntries_eq]

/-- Induction on a tree: its items, or the two sides of its entries, have the property. -/
@[elab_as_elim]
theorem induct {P : Tree α → Prop} (atom : ∀ a, P (.atom a))
    (list : ∀ ts, (∀ t ∈ ts, P t) → P (.list ts))
    (map : ∀ k v rest, P k → P v → (∀ e ∈ rest, P e.1 ∧ P e.2) → P (.map k v rest))
    (leaf : ∀ a, P (.leaf a)) (t : Tree α) : P t :=
  @Tree.rec α P (fun ts => ∀ t ∈ ts, P t) (fun es => ∀ e ∈ es, P e.1 ∧ P e.2)
    (fun e => P e.1 ∧ P e.2)
    atom list (fun k v rest hk hv hr => map k v rest hk hv hr) leaf
    (by simp) (fun t ts ht hts => by simpa using ⟨ht, hts⟩)
    (by simp) (fun e es he hes => List.forall_mem_cons.2 ⟨he, hes⟩)
    (fun _ _ hk hv => ⟨hk, hv⟩) t

mutual

/-- Whether two trees agree up to the forms of their atoms, leaves being compared by `leafSame`. -/
def same (leafSame : α → α → Bool) : Tree α → Tree α → Bool
  | .atom a, .atom b => a.text = b.text
  | .list xs, .list ys => sameItems leafSame xs ys
  | .map k v rest, .map k' v' rest' =>
    same leafSame k k' && same leafSame v v' && sameEntries leafSame rest rest'
  | .leaf a, .leaf b => leafSame a b
  | _, _ => false

def sameItems (leafSame : α → α → Bool) : List (Tree α) → List (Tree α) → Bool
  | [], [] => true
  | x :: xs, y :: ys => same leafSame x y && sameItems leafSame xs ys
  | _, _ => false

def sameEntries (leafSame : α → α → Bool) :
    List (Tree α × Tree α) → List (Tree α × Tree α) → Bool
  | [], [] => true
  | (k, v) :: es, (k', v') :: es' =>
    same leafSame k k' && same leafSame v v' && sameEntries leafSame es es'
  | _, _ => false

end

/-- The tree with its leaves replaced. -/
def mapLeaf (f : α → β) : Tree α → Tree β :=
  fold { atom := .atom, list := .list, map := .map, leaf := fun a => .leaf (f a) }

/-- A tree without leaves, seen as a tree that could have some. -/
def ofDatum : Datum → Tree α := mapLeaf Empty.elim

instance : Coe Datum (Tree α) := ⟨ofDatum⟩

/-- The tree as a datum, or its first leaf in the order of writing. -/
def toDatum : Tree α → Except α Datum :=
  fold {
    atom := fun a => .ok (.atom a)
    list := fun items => return .list (← items.mapM id)
    map := fun key value rest => do
      let key ← key
      let value ← value
      let rest ← rest.mapM fun e => do return (← e.1, ← e.2)
      return .map key value rest
    leaf := .error }

/-- Whether the tree holds neither symbols nor leaves, keys included. -/
def isLiteral : Tree α → Bool :=
  fold {
    atom := Atom.isLiteral
    list := fun items => items.all id
    map := fun key value rest => key && value && rest.all fun e => e.1 && e.2
    leaf := fun _ => false }

/-- The empty list, the empty text and the bare word `false` count as false. -/
def isTrue : Tree α → Bool
  | .list [] => false
  | .atom a => a.isTrue
  | _ => true

/-- The entries of a map, none for any other tree. -/
def entries : Tree α → List (Tree α × Tree α)
  | .map k v rest => (k, v) :: rest
  | _ => []

/-- The value of the first entry whose key agrees with `key` up to forms. -/
def find? (leafSame : α → α → Bool) (key : Tree α) (entries : List (Tree α × Tree α)) :
    Option (Tree α) :=
  (entries.find? fun e => same leafSame e.1 key).map Prod.snd

end Tree

/-- Whether two data agree up to the forms of their atoms. -/
def Datum.same (a b : Datum) : Bool := Tree.same (fun x _ => x.elim) a b

end MiniLisp
