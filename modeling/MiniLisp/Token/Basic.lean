import MiniLisp.Atom
import MiniLisp.Text.Position

/-!
# Tokens

A document is a sequence of tokens: the three spellings of atoms, parentheses, colons, and comments,
which mean nothing. A token knows its text, decoded, and where it starts.
-/

namespace MiniLisp

inductive TokenKind
  | bare
  | quoted
  | guarded
  | lparen
  | rparen
  | colon
  | comment
  deriving DecidableEq

/-- The form of the atom that a token of this kind stands for. -/
def TokenKind.form? : TokenKind → Option Form
  | .bare => some .bare
  | .quoted => some .quoted
  | .guarded => some .guarded
  | _ => none

structure Token where
  kind : TokenKind
  text : Text
  position : Position
  deriving DecidableEq

def Token.isComment (t : Token) : Bool := t.kind = .comment

end MiniLisp
