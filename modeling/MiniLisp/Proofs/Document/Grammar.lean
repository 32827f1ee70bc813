import MiniLisp.Proofs.Token.Lexeme
import MiniLisp.Tree

/-!
# The grammar of documents

What a document says does not depend on where its tokens stand, so the grammar is about lexemes:

    Document := Body
    Item     := Atom | "(" Body ")"
    Body     := (Item ":" Item)+ | Item*

`Grammar.Item d xs v` and `Grammar.Body d xs v` say that `xs` is derived with result `v` and with at
most `d` parentheses around any part of it. The lexemes show that bound by themselves, as the most
parentheses that are open at once (`Grammar.Body.nesting_le`).
-/

namespace MiniLisp

namespace Grammar

variable {α : Type}

mutual

/-- The lexemes are one item, an atom or a body in parentheses. -/
inductive Item : Nat → List Lexeme → Tree α → Prop
  | atom {d : Nat} {x : Lexeme} {form : Form} : x.kind.form? = some form →
      Item d [x] (.atom ⟨x.text, form⟩)
  | parens {d : Nat} {l r : Lexeme} {xs : List Lexeme} {v : Tree α} : l.kind = .lparen →
      r.kind = .rparen → Body d xs v → Item (d + 1) (l :: (xs ++ [r])) v

/-- The lexemes are a body: the items of a list, or the entries of a map, at least one. -/
inductive Body : Nat → List Lexeme → Tree α → Prop
  | list {d : Nat} {xs : List Lexeme} {items : List (Tree α)} : Items d xs items →
      Body d xs (.list items)
  | map {d : Nat} {xs : List Lexeme} {k v : Tree α} {rest : List (Tree α × Tree α)} :
      Entries d xs ((k, v) :: rest) → Body d xs (.map k v rest)

/-- The lexemes are items in a row. -/
inductive Items : Nat → List Lexeme → List (Tree α) → Prop
  | nil {d : Nat} : Items d [] []
  | cons {d : Nat} {xs ys : List Lexeme} {v : Tree α} {vs : List (Tree α)} : Item d xs v →
      Items d ys vs → Items d (xs ++ ys) (v :: vs)

/-- The lexemes are entries in a row, each an item, a colon and an item. -/
inductive Entries : Nat → List Lexeme → List (Tree α × Tree α) → Prop
  | nil {d : Nat} : Entries d [] []
  | cons {d : Nat} {xs ys zs : List Lexeme} {c : Lexeme} {k v : Tree α}
      {es : List (Tree α × Tree α)} : Item d xs k → c.kind = .colon → Item d ys v →
      Entries d zs es → Entries d (xs ++ c :: (ys ++ zs)) ((k, v) :: es)

end

theorem Items.single {d : Nat} {xs : List Lexeme} {v : Tree α} (h : Item d xs v) :
    Items d xs [v] := by
  have := Items.cons h Items.nil
  rwa [List.append_nil] at this

theorem Items.append {d : Nat} {xs ys : List Lexeme} {vs ws : List (Tree α)}
    (h : Items d xs vs) (h' : Items d ys ws) : Items d (xs ++ ys) (vs ++ ws) := by
  match h with
  | .nil => exact h'
  | .cons hv hvs =>
    rw [List.append_assoc]
    exact .cons hv (Items.append hvs h')

theorem Entries.single {d : Nat} {xs ys : List Lexeme} {c : Lexeme} {k v : Tree α}
    (hk : Item d xs k) (hc : c.kind = .colon) (hv : Item d ys v) :
    Entries d (xs ++ c :: ys) [(k, v)] := by
  have := Entries.cons hk hc hv Entries.nil
  rwa [List.append_nil] at this

theorem Entries.append {d : Nat} {xs ys : List Lexeme} {es es' : List (Tree α × Tree α)}
    (h : Entries d xs es) (h' : Entries d ys es') : Entries d (xs ++ ys) (es ++ es') := by
  match h with
  | .nil => exact h'
  | .cons hk hc hv hes =>
    simp only [List.append_assoc, List.cons_append]
    exact .cons hk hc hv (Entries.append hes h')

mutual

/-- Comments are not part of the grammar. -/
theorem Item.ne_comment {d : Nat} {xs : List Lexeme} {v : Tree α} (h : Item d xs v) :
    ∀ x ∈ xs, x.kind ≠ .comment := by
  match h with
  | .atom hf =>
    intro x hx hk
    rw [← List.mem_singleton.1 hx, hk] at hf
    cases hf
  | .parens hl hr hb =>
    intro x hx hk
    simp only [List.mem_cons, List.mem_append, List.not_mem_nil, or_false] at hx
    rcases hx with rfl | hx | rfl
    · rw [hk] at hl; cases hl
    · exact Body.ne_comment hb x hx hk
    · rw [hk] at hr; cases hr

theorem Body.ne_comment {d : Nat} {xs : List Lexeme} {v : Tree α} (h : Body d xs v) :
    ∀ x ∈ xs, x.kind ≠ .comment := by
  match h with
  | .list hs => exact Items.ne_comment hs
  | .map hes => exact Entries.ne_comment hes

theorem Items.ne_comment {d : Nat} {xs : List Lexeme} {vs : List (Tree α)} (h : Items d xs vs) :
    ∀ x ∈ xs, x.kind ≠ .comment := by
  match h with
  | .nil => simp
  | .cons hv hvs =>
    intro x hx
    rcases List.mem_append.1 hx with hx | hx
    · exact Item.ne_comment hv x hx
    · exact Items.ne_comment hvs x hx

theorem Entries.ne_comment {d : Nat} {xs : List Lexeme} {es : List (Tree α × Tree α)}
    (h : Entries d xs es) : ∀ x ∈ xs, x.kind ≠ .comment := by
  match h with
  | .nil => simp
  | .cons hk hc hv hes =>
    intro x hx hcomment
    simp only [List.mem_append, List.mem_cons] at hx
    rcases hx with hx | rfl | hx | hx
    · exact Item.ne_comment hk x hx hcomment
    · rw [hcomment] at hc; cases hc
    · exact Item.ne_comment hv x hx hcomment
    · exact Entries.ne_comment hes x hx hcomment

end

open Lexeme (deepest openAfter le_deepest)

mutual

/-- What follows an item finds as many parentheses open as there were before it, and inside the item
at most `d` more. -/
theorem Item.deepest_le {d : Nat} {xs : List Lexeme} {v : Tree α} (h : Item d xs v) (n : Nat)
    (ys : List Lexeme) :
    deepest n (xs ++ ys) ≤ max (n + d) (deepest n ys) := by
  match h with
  | .atom hf =>
    have := le_deepest n ys
    simp only [List.cons_append, List.nil_append, deepest, Lexeme.openAfter_atom hf]
    omega
  | @Item.parens _ d l r xs _ hl hr hb =>
    have hin := Body.deepest_le hb (n + 1) (r :: ys)
    have := le_deepest n ys
    simp only [deepest, Lexeme.openAfter_rparen hr, Nat.add_sub_cancel] at hin
    simp only [List.cons_append, List.append_assoc, List.nil_append, deepest,
      Lexeme.openAfter_lparen hl]
    omega

theorem Body.deepest_le {d : Nat} {xs : List Lexeme} {v : Tree α} (h : Body d xs v) (n : Nat)
    (ys : List Lexeme) :
    deepest n (xs ++ ys) ≤ max (n + d) (deepest n ys) := by
  match h with
  | .list hs => exact Items.deepest_le hs n ys
  | .map hes => exact Entries.deepest_le hes n ys

theorem Items.deepest_le {d : Nat} {xs : List Lexeme} {vs : List (Tree α)} (h : Items d xs vs)
    (n : Nat) (ys : List Lexeme) :
    deepest n (xs ++ ys) ≤ max (n + d) (deepest n ys) := by
  match h with
  | .nil => exact Nat.le_max_right _ _
  | @Items.cons _ _ xs xs' _ _ hv hvs =>
    have h1 := Item.deepest_le hv n (xs' ++ ys)
    have h2 := Items.deepest_le hvs n ys
    rw [List.append_assoc]
    omega

theorem Entries.deepest_le {d : Nat} {xs : List Lexeme} {es : List (Tree α × Tree α)}
    (h : Entries d xs es) (n : Nat) (ys : List Lexeme) :
    deepest n (xs ++ ys) ≤ max (n + d) (deepest n ys) := by
  match h with
  | .nil => exact Nat.le_max_right _ _
  | @Entries.cons _ _ xs zs xs' c _ _ _ hk hc hv hes =>
    have h1 := Item.deepest_le hk n (c :: (zs ++ (xs' ++ ys)))
    have h2 := Item.deepest_le hv n (xs' ++ ys)
    have h3 := Entries.deepest_le hes n ys
    have := le_deepest n ys
    simp only [deepest, Lexeme.openAfter_colon hc] at h1
    simp only [List.append_assoc, List.cons_append]
    omega

end

/-- **The bound of a derivation bounds the nesting of its lexemes.** -/
theorem Body.nesting_le {d : Nat} {xs : List Lexeme} {v : Tree α} (h : Body d xs v) :
    Lexeme.nesting xs ≤ d := by
  have := h.deepest_le 0 []
  simpa [Lexeme.nesting, deepest] using this

end Grammar

end MiniLisp
