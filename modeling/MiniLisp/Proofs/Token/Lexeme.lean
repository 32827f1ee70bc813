import MiniLisp.Token.Lexer

/-!
# Lexemes

A **lexeme** is a token without its place: what it is and what it says. Two texts that differ in
layout only have the same lexemes in the same order (`Lexed.lexemes`), and comments aside they say
the same (`Lexed.significant`). `Lexeme.nesting` is how deep the parentheses of a sequence nest.
-/

namespace MiniLisp

/-- A token without its place. -/
structure Lexeme where
  kind : TokenKind
  text : Text
  deriving DecidableEq

def Token.lexeme (t : Token) : Lexeme := ⟨t.kind, t.text⟩

@[simp] theorem Token.lexeme_kind (t : Token) : t.lexeme.kind = t.kind := rfl

namespace Lexeme

def lparen : Lexeme := ⟨.lparen, "("⟩

def rparen : Lexeme := ⟨.rparen, ")"⟩

def colon : Lexeme := ⟨.colon, ":"⟩

/-- How many parentheses are open after a lexeme, if `n` were open before it. -/
def openAfter (n : Nat) (x : Lexeme) : Nat :=
  match x.kind with
  | .lparen => n + 1
  | .rparen => n - 1
  | _ => n

/-- The most parentheses that are open at once, if `n` were open before the lexemes. -/
def deepest (n : Nat) : List Lexeme → Nat
  | [] => n
  | x :: xs => max n (deepest (openAfter n x) xs)

/-- How deep the parentheses of a sequence of lexemes nest. -/
def nesting (xs : List Lexeme) : Nat := deepest 0 xs

theorem le_deepest (n : Nat) (xs : List Lexeme) : n ≤ deepest n xs := by
  cases xs with
  | nil => exact Nat.le_refl n
  | cons x xs => exact Nat.le_max_left _ _

theorem openAfter_lparen {x : Lexeme} (h : x.kind = .lparen) (n : Nat) :
    openAfter n x = n + 1 := by
  simp [openAfter, h]

theorem openAfter_rparen {x : Lexeme} (h : x.kind = .rparen) (n : Nat) :
    openAfter n x = n - 1 := by
  simp [openAfter, h]

theorem openAfter_colon {x : Lexeme} (h : x.kind = .colon) (n : Nat) : openAfter n x = n := by
  simp [openAfter, h]

theorem openAfter_atom {x : Lexeme} {form : Form} (h : x.kind.form? = some form) (n : Nat) :
    openAfter n x = n := by
  cases hk : x.kind with
  | lparen => simp [hk, TokenKind.form?] at h
  | rparen => simp [hk, TokenKind.form?] at h
  | _ => simp [openAfter, hk]

end Lexeme

namespace Lexed

/-- The lexemes of a text in order. -/
def lexemes (l : Lexed) : List Lexeme := l.tokens.map Token.lexeme

/-- What a text says: its lexemes without the comments. -/
def significant (l : Lexed) : List Lexeme :=
  (l.tokens.filter fun t => !t.isComment).map Token.lexeme

theorem significant_eq (l : Lexed) :
    l.significant = l.lexemes.filter fun x => x.kind ≠ .comment := by
  simp only [significant, lexemes, List.filter_map]
  congr 1
  apply List.filter_congr
  intro t _
  by_cases h : t.kind = .comment <;> simp [Token.isComment, h]

end Lexed

end MiniLisp
