/-
White space inside a flow scalar.

Between two words of a plain or quoted scalar stand blanks, or line breaks with blanks around them.
Blanks alone are kept; a single line break becomes a space, and of more breaks the first is dropped.

* `Gap.text` : what a gap contributes to the scalar.
-/
import CollectorTemplate.Yaml.Character

namespace CollectorTemplate.Yaml

/-- White space read since the last word of a flow scalar.  Lists hold the latest character
first. -/
structure Gap where
  /-- Blanks before any break. -/
  blanks : List Char := []
  /-- Whether a line break was met. -/
  broken : Bool := false
  /-- The first break, unless it was escaped. -/
  first : Option Char := none
  /-- The breaks after the first. -/
  more : List Char := []
  deriving Repr, DecidableEq, Inhabited

namespace Gap

/-- The gap with one more blank, which counts only before any break. -/
def blank (g : Gap) (c : Char) : Gap :=
  if g.broken then g else { g with blanks := c :: g.blanks }

/-- The gap with one more line break. -/
def newline (g : Gap) (c : Char) : Gap :=
  if g.broken then { g with more := breakText c :: g.more }
  else { blanks := [], broken := true, first := some (breakText c), more := [] }

/-- The gap after an escaped line break, which leaves nothing in the text. -/
def escaped : Gap := { broken := true }

/-- What the gap contributes to the scalar: a single LF folds to a space, a first LF before other
breaks is dropped, and breaks of other kinds stay. -/
def text (g : Gap) : List Char :=
  if g.broken then
    if g.first = some '\n' then
      if g.more.isEmpty then [' '] else g.more.reverse
    else g.first.toList ++ g.more.reverse
  else g.blanks.reverse

end Gap

end CollectorTemplate.Yaml
