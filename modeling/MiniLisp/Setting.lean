import MiniLisp.Number.Numeral
import MiniLisp.Text.Blank
import MiniLisp.Text.Quotation
import MiniLisp.Text.Uppercase

/-!
# Settings

Four variables from outside set the limits that apply where none is given, and the level of the log.
A variable that is missing or blank leaves the limit at its default; any other text has to be a
positive integer.
-/

namespace MiniLisp

/-- The variables, as they are set or not. -/
structure Variables where
  nesting : Option Text
  evalDepth : Option Text
  budget : Option Text
  logLevel : Option Text

/-- Why a variable cannot be used. -/
inductive SettingError
  | notInteger (name raw : Text)
  | notPositive (name : Text) (value : Int)
  | notLevel (raw : Text)
  deriving DecidableEq

def SettingError.message : SettingError → Text
  | .notInteger name raw => name ++ " must be an integer, got " ++ Text.quotation raw
  | .notPositive name value => name ++ " must be positive, got " ++ Text.ofInt value
  | .notLevel raw => "ATTO_LOG_LEVEL is not a logging level: " ++ Text.quotation raw

/-- The digits of a run that may have single underscores between them, as long as it starts and
ends with a digit. -/
def ungroupDigits? : Text → Option Text
  | [] => none
  | [c] => if c.isDigit then some [c] else none
  | c :: d :: rest =>
    if !c.isDigit then none
    else if d = '_' then (ungroupDigits? rest).map (c :: ·)
    else (ungroupDigits? (d :: rest)).map (c :: ·)

/-- The integer that a text denotes: a sign if any, then digits, not too many. -/
def parseInteger? (t : Text) : Option Int :=
  let (negative, grouped) := Numeral.splitSign t
  match ungroupDigits? grouped with
  | none => none
  | some digits =>
    if digitLimit < digits.length then none
    else
      let size : Int := Text.decimalValue digits
      some (if negative then -size else size)

/-- A positive integer from the variable `name`, or the default. -/
def readLimit (name : Text) (default : Option Int) : Option Text → Except SettingError (Option Int)
  | none => .ok default
  | some raw =>
    let stripped := Text.strip raw
    if stripped.isEmpty then .ok default
    else match parseInteger? stripped with
      | none => .error (.notInteger name raw)
      | some value => if value < 1 then .error (.notPositive name value) else .ok (some value)

namespace Variables

/-- How deep the parentheses of a document may nest. -/
def maxNesting (v : Variables) : Except SettingError Int :=
  (readLimit "ATTO_MAX_DEPTH" (some 200) v.nesting).map (·.getD 200)

/-- How deep evaluation may nest. -/
def maxEvalDepth (v : Variables) : Except SettingError Int :=
  (readLimit "ATTO_MAX_EVAL_DEPTH" (some 150) v.evalDepth).map (·.getD 150)

/-- How many applications an evaluation may take; no limit by default. -/
def stepBudget (v : Variables) : Except SettingError (Option Int) :=
  readLimit "ATTO_STEP_BUDGET" none v.budget

/-- The levels of the log by name. -/
def levels : List (Text × Nat) :=
  [("CRITICAL", 50), ("FATAL", 50), ("ERROR", 40), ("WARN", 30), ("WARNING", 30), ("INFO", 20),
    ("DEBUG", 10), ("NOTSET", 0)]

/-- The level of the log; warnings by default. -/
def level (v : Variables) : Except SettingError Nat :=
  let name := Text.upper (Text.strip (v.logLevel.getD "WARNING"))
  match levels.lookup name with
  | some n => .ok n
  | none => .error (.notLevel name)

/-- The level at which events are logged. -/
def debugLevel : Nat := 10

end Variables

end MiniLisp
