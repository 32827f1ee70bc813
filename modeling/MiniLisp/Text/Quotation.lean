import MiniLisp.Text.Printable

/-!
# Texts quoted in messages

A message shows a text between single quotes, or between double quotes if the text holds a single
quote and no double one. Backslashes, the quote in use, line feeds, returns and tabs get a
backslash; other code points that cannot be printed are shown by their number.
-/

namespace MiniLisp

/-- A code point between the quotes of a message. -/
def CodePoint.quotation (quote c : CodePoint) : Text :=
  if c = quote ∨ c = '\\' then ['\\', c]
  else if c = '\n' then "\\n"
  else if c = '\r' then "\\r"
  else if c = '\t' then "\\t"
  else if c.isPrintable then [c]
  else if c.val < 0x100 then "\\x" ++ Text.hexPadded 2 c.val
  else if c.val < 0x10000 then "\\u" ++ Text.hexPadded 4 c.val
  else "\\U" ++ Text.hexPadded 8 c.val

/-- The quote that a message puts around a text. -/
def Text.quotationMark (t : Text) : CodePoint :=
  if t.contains (CodePoint.ofChar '\'') && !t.contains (CodePoint.ofChar '"') then '"' else '\''

/-- A text as a message shows it, quotes included. -/
def Text.quotation (t : Text) : Text :=
  let quote := Text.quotationMark t
  quote :: t.flatMap (CodePoint.quotation quote) ++ [quote]

end MiniLisp
