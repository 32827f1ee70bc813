import MiniLisp.Number.Numeral
import MiniLisp.Text.Blank
import MiniLisp.Text.Escape

/-!
# Atoms

An atom is a text together with the way it was written. A bare atom is a numeral or a symbol; quoted
and guarded atoms are plain texts. `Atom.serialize` writes an atom the way it was written whenever
that can carry its text, and as a quoted string otherwise.
-/

namespace MiniLisp

/-- How an atom is written: as a word, between quotes, or between `#"` and `"#`. -/
inductive Form
  | bare
  | quoted
  | guarded
  deriving DecidableEq

/-- A text and its form. -/
structure Atom where
  text : Text
  form : Form
  deriving DecidableEq

namespace Atom

def bare (text : Text) : Atom := ⟨text, .bare⟩

def quoted (text : Text) : Atom := ⟨text, .quoted⟩

/-- The atoms that stand for truth values. -/
def ofBool (b : Bool) : Atom := bare (if b then "true" else "false")

/-- The parts of a bare atom that is a numeral. -/
def numeral? (a : Atom) : Option Numeral :=
  if a.form = .bare then Numeral.parse? a.text else none

def isNumeral (a : Atom) : Bool := a.numeral?.isSome

/-- Bare atoms that are no numerals name something. -/
def isSymbol (a : Atom) : Bool := a.form = .bare && !a.isNumeral

/-- Atoms that stand for themselves. -/
def isLiteral (a : Atom) : Bool := !a.isSymbol

/-- The number that a numeral denotes; nothing for any other atom. -/
def number? (a : Atom) : Except ArithmeticFault (Option Number) :=
  match a.numeral? with
  | some n => (n.value a.text).map some
  | none => .ok none

/-- The numeral of an arithmetic result. -/
def ofNumber (n : Option Number) : Except ArithmeticFault Atom := (Number.write n).map bare

/-- The empty text and the bare word `false` count as false. -/
def isTrue (a : Atom) : Bool := !(a.text.isEmpty || a = bare "false")

end Atom

/-- How many code points stand before the first `"#`, if there is one. -/
def guardEnd? : Text → Option Nat
  | [] => none
  | c :: rest =>
    if c = '"' ∧ rest.head? = some (CodePoint.ofChar '#') then some 0
    else (guardEnd? rest).map (· + 1)

/-- A quoted string with this text. -/
def Text.inQuotes (t : Text) : Text := "\"" ++ Text.escape t true ++ "\""

/-- A guarded string with this text, which holds no `"#`. -/
def Text.inGuards (t : Text) : Text := "#\"" ++ t ++ "\"#"

/-- Whether the form of an atom can carry its text. -/
def Atom.isFaithful (a : Atom) : Bool :=
  match a.form with
  | .bare => Text.isBareWord a.text
  | .quoted => true
  | .guarded => (guardEnd? a.text).isNone

/-- An atom as it is written in a document. -/
def Atom.serialize (a : Atom) : Text :=
  match a.form, a.isFaithful with
  | .bare, true => a.text
  | .guarded, true => Text.inGuards a.text
  | _, _ => Text.inQuotes a.text

end MiniLisp
