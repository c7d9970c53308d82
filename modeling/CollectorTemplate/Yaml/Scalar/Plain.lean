/-
Plain scalars.

A plain scalar runs over words and the gaps between them until an indicator, a comment, a document
marker or a line that is not indented enough.

* `Plain.scan` : the text of the scalar that begins at the cursor, where it ends, and whether it
  ends after a line break, so that a key may follow.
-/
import CollectorTemplate.Yaml.Cursor
import CollectorTemplate.Yaml.Scalar.Gap

namespace CollectorTemplate.Yaml.Plain

/-- What of a plain scalar has been read; `text` holds the latest character first. -/
structure Partial where
  text : List Char := []
  gap : Gap := {}
  deriving Repr, DecidableEq, Inhabited

/-- A flow indicator, which ends a plain scalar inside a flow collection. -/
def isFlowIndicator (c : Char) : Bool := c == ',' || c == '[' || c == ']' || c == '{' || c == '}'

/-- Whether a colon before these characters is misplaced inside a flow collection. -/
def isStrayColon (after : List Char) : Bool :=
  match after with
  | c :: _ => isFlowIndicator c || c == '?'
  | [] => false

/-- Whether the character `c`, followed by `after`, ends a plain scalar. -/
def isEnd (flow : Bool) (c : Char) (after : List Char) : Bool :=
  (c == ':' && gapAhead after) || (flow && isFlowIndicator c)

/-- Whether a word may not begin here after a gap: the line is not indented enough, or a comment or
a document marker stands here. -/
def isStop (flow : Bool) (indent : Int) (gap : Gap) (chars : List Char) (mark : Mark) : Bool :=
  (!gap.blanks.isEmpty || gap.broken) &&
    ((!flow && (mark.column : Int) < indent) || chars.head? = some '#' ||
      (mark.column == 0 && isDocumentMark chars))

/-- Reads on, character by character.  `indent` is the least column of a continuation line and
`start` the beginning of the scalar. -/
def scanFrom (flow : Bool) (indent : Int) (start : Mark) :
    List Char → Mark → Partial → Except Fault (Partial × Cursor)
  | [], mark, p => .ok (p, ⟨[], mark⟩)
  | '\r' :: '\n' :: rest, mark, p =>
    scanFrom flow indent start rest mark.pairedNewline { p with gap := p.gap.newline '\n' }
  | c :: rest, mark, p =>
    if isBreak c then
      scanFrom flow indent start rest (mark.newline c) { p with gap := p.gap.newline c }
    else if isBlank c then
      if p.gap.broken ∧ (mark.column : Int) < indent ∧ c = '\t' then
        .error ⟨.tabBreaksIndentation, mark, some (.plainScalar, start)⟩
      else scanFrom flow indent start rest (mark.next c) { p with gap := p.gap.blank c }
    else if isStop flow indent p.gap (c :: rest) mark then .ok (p, ⟨c :: rest, mark⟩)
    else if flow && c == ':' && isStrayColon rest then
      .error ⟨.strayColon, mark, some (.plainScalar, start)⟩
    else if isEnd flow c rest then .ok (p, ⟨c :: rest, mark⟩)
    else
      scanFrom flow indent start rest (mark.next c)
        { text := c :: (p.gap.text.reverse ++ p.text), gap := {} }

/-- The plain scalar at the cursor, inside a flow collection or in block context at indentation
`indent`: its text, where reading goes on, and whether that is after a line break. -/
def scan (flow : Bool) (indent : Int) (c : Cursor) : Except Fault (List Char × Cursor × Bool) := do
  let (p, stop) ← scanFrom flow (indent + 1) c.mark c.rest c.mark {}
  return (p.text.reverse, stop, p.gap.broken)

end CollectorTemplate.Yaml.Plain
