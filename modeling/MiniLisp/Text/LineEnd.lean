import MiniLisp.Text.Basic

/-!
# Line ends of stored texts

A stored text may end its lines with a line feed, a carriage return or both. Loading it turns each
of the three into one line feed.
-/

namespace MiniLisp

/-- Every line end as a single line feed. -/
def Text.unifyLineEnds : Text → Text
  | [] => []
  | c :: rest =>
    if c = '\r' then
      match rest with
      | [] => ['\n']
      | d :: rest' =>
        if d = '\n' then '\n' :: unifyLineEnds rest' else '\n' :: unifyLineEnds (d :: rest')
    else c :: unifyLineEnds rest

end MiniLisp
