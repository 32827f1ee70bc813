import MiniLisp.Text.Basic

/-!
# Events worth logging

What happens while a document is read or evaluated and is of interest to someone who looks for a
mistake. Each event is one line of the log.
-/

namespace MiniLisp

/-- The two shapes of a body. -/
inductive BodyKind
  | list
  | map
  deriving DecidableEq

inductive Event
  /-- The body at this depth turned out to be a list or a map. -/
  | committed (depth : Int) (kind : BodyKind)
  | specialForm (name : Text)
  | budgetExhausted (budget : Int)
  | depthReached (limit : Int)
  deriving DecidableEq

def BodyKind.name : BodyKind → Text
  | .list => "list"
  | .map => "map"

/-- The line that the log shows. -/
def Event.line : Event → Text
  | .committed depth kind =>
    "atto.reader.parser DEBUG: body at depth " ++ Text.ofInt depth ++
      " committed to " ++ kind.name
  | .specialForm name => "atto.evaluation.evaluator DEBUG: special form " ++ name
  | .budgetExhausted budget =>
    "atto.evaluation.evaluator DEBUG: step budget of " ++ Text.ofInt budget ++
      " exhausted"
  | .depthReached limit =>
    "atto.evaluation.evaluator DEBUG: evaluation depth limit " ++ Text.ofInt limit ++
      " reached"

end MiniLisp
