import MiniLisp.Text.Printable

/-!
# Escapes in quoted strings

Inside a quoted string a backslash starts an escape: a letter that names a code point, `\xHH` with
two hexadecimal digits, or `\u` with two to eight of them between braces.

* `Text.escape` writes a text with escapes, so that every code point of the result is printable.
* `readEscape` reads one escape, `readQuoted` the rest of a string up to its closing quote.
-/

namespace MiniLisp

/-- Escapes by one letter: the letter, and the code point it names. -/
def namedEscapes : List (CodePoint × CodePoint) :=
  [('\\', '\\'), ('"', '"'), ('n', '\n'), ('r', '\r'), ('t', '\t'), ('0', '\x00'), ('e', '\x1b')]

/-- The letter whose escape names the code point. -/
def escapeLetter? (c : CodePoint) : Option CodePoint :=
  (namedEscapes.find? fun entry => entry.2 = c).map Prod.fst

/-- The code point that a letter after a backslash names. A space names itself: it is read, and
never written. -/
def namedCodePoint? (letter : CodePoint) : Option CodePoint :=
  if letter = CodePoint.ofChar ' ' then some letter
  else (namedEscapes.find? fun entry => entry.1 = letter).map Prod.snd

/-- A code point as it is written between quotes. Without `quotes` the quote itself stays plain. -/
def CodePoint.escape (quotes : Bool) (c : CodePoint) : Text :=
  match if c = '"' && !quotes then none else escapeLetter? c with
  | some letter => ['\\', letter]
  | none =>
    if c.isPrintable then [c]
    else if c.val < 0x100 then "\\x" ++ Text.hexPadded 2 c.val
    else "\\u\x7b" ++ Text.hex c.val ++ "\x7d"

/-- The text with every code point escaped that needs it. -/
def Text.escape (t : Text) (quotes : Bool) : Text := t.flatMap (CodePoint.escape quotes)

/-- Why an escape cannot be read, with the part of it that a message shows. -/
inductive EscapeFault
  | invalid (shown : Text)
  | outOfRange (shown : Text)
  deriving DecidableEq

/-- The code point numbered by hexadecimal digits, for the escape spelt `shown`. -/
def numberedCodePoint (digits shown : Text) : Except EscapeFault CodePoint :=
  match (Text.hexNumber? digits).bind CodePoint.ofNat? with
  | some c => .ok c
  | none => .error (.outOfRange shown)

/-- The escape after a backslash: the code point it stands for and its length without the
backslash. -/
def readEscape : Text → Except EscapeFault (CodePoint × Nat)
  | [] => .error (.invalid ['\\'])
  | letter :: rest =>
    match namedCodePoint? letter with
    | some c => .ok (c, 1)
    | none =>
      let digits := rest.takeWhile fun d => d.hexValue?.isSome
      let braced := (rest.drop 1).takeWhile fun d => d.hexValue?.isSome
      if letter = 'x' ∧ 2 ≤ digits.length then
        (numberedCodePoint (digits.take 2) ('\\' :: letter :: digits.take 2)).map (·, 3)
      else if letter = 'u' ∧ rest.head? = some (CodePoint.ofChar '\x7b') ∧ 2 ≤ braced.length ∧
          braced.length ≤ 8 ∧ rest[braced.length + 1]? = some (CodePoint.ofChar '\x7d') then
        (numberedCodePoint braced ('\\' :: letter :: rest.take (braced.length + 2))).map
          (·, braced.length + 3)
      else .error (.invalid ['\\', letter])

/-- What follows an opening quote. -/
inductive Quoted
  /-- A string, decoded, and its length up to and including the closing quote. -/
  | closed (text : Text) (length : Nat)
  /-- The input ends before a closing quote. -/
  | unterminated
  /-- An escape, `before` code points further on, cannot be read. -/
  | badEscape (before : Nat) (fault : EscapeFault)
  deriving DecidableEq

/-- The same with `c` in front, spelt by `width` code points. -/
def Quoted.push (c : CodePoint) (width : Nat) : Quoted → Quoted
  | .closed text length => .closed (c :: text) (length + width)
  | .unterminated => .unterminated
  | .badEscape before fault => .badEscape (before + width) fault

/-- Read a quoted string from just after its opening quote. -/
def readQuoted : Text → Quoted
  | [] => .unterminated
  | c :: rest =>
    if c = '"' then .closed [] 1
    else if c = '\\' then
      if rest.isEmpty then .unterminated
      else match readEscape rest with
        | .ok (d, length) => (readQuoted (rest.drop length)).push d (length + 1)
        | .error fault => .badEscape 0 fault
    else (readQuoted rest).push c 1
termination_by s => s.length
decreasing_by all_goals simp only [List.length_drop, List.length_cons]; omega

end MiniLisp
