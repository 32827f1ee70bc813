import MiniLisp.Text.Escape
import MiniLisp.Text.Position
import MiniLisp.Text.Quotation

/-!
# Errors of reading

A text that is no document has a first fault and a place where it shows. `ReadFault.message` is the
wording of each fault; the message of an error also names the line and column.
-/

namespace MiniLisp

/-- What is wrong with a text that cannot be read. -/
inductive ReadFault
  /-- A byte does not continue the UTF-8 text before it. -/
  | invalidByte (byte : Nat)
  /-- A code point begins no token. -/
  | unexpectedCharacter (c : CodePoint)
  | escape (fault : EscapeFault)
  | unterminatedString
  | unterminatedGuarded
  /-- The document ends where a value is missing. -/
  | unexpectedEnd
  /-- A token stands where no item can start. -/
  | unexpectedToken (text : Text)
  /-- A token stands where the value of an entry should be. -/
  | missingValue (text : Text)
  | unclosedParen
  /-- A key of a map has no colon after it. -/
  | missingColon
  | colonInList
  | itemInMap
  | tooDeep (limit : Int)
  deriving DecidableEq

def EscapeFault.message : EscapeFault → Text
  | .invalid shown => "Invalid escape sequence " ++ Text.quotation shown
  | .outOfRange shown => "Escape " ++ Text.quotation shown ++ " is out of range"

def ReadFault.message : ReadFault → Text
  | .invalidByte byte => "Invalid UTF-8 byte 0x" ++ Text.hexPadded 2 byte
  | .unexpectedCharacter c => "Unexpected character " ++ Text.quotation [c]
  | .escape fault => fault.message
  | .unterminatedString => "Unterminated string"
  | .unterminatedGuarded => "Unterminated guarded string"
  | .unexpectedEnd => "Unexpected end of input"
  | .unexpectedToken text => "Unexpected " ++ Text.quotation text
  | .missingValue text => "Expected a value after ':', got " ++ Text.quotation text
  | .unclosedParen => "Unclosed '('"
  | .missingColon => "Expected ':' after map key"
  | .colonInList => "':' inside a list; a body is either all items or all entries"
  | .itemInMap => "List item inside a map; a body is either all items or all entries"
  | .tooDeep limit => "Nesting deeper than " ++ Text.ofInt limit

/-- A message with the place it is about, if that is known. -/
def Text.located (message : Text) : Option Position → Text
  | none => message
  | some p =>
    message ++ " at line " ++ Text.ofNat p.line ++ ", column " ++
      Text.ofNat p.column

/-- A fault and where it shows. -/
structure ReadError where
  fault : ReadFault
  position : Position
  deriving DecidableEq

def ReadError.message (e : ReadError) : Text := Text.located e.fault.message (some e.position)

end MiniLisp
