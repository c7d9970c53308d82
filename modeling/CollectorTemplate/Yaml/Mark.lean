/-
Places in a text.

A `Mark` counts what came before a place: characters, bytes in UTF-8, line breaks, and the
characters since the last break.  Readers report errors at marks, and texts show them counted from
one.

* `Mark.text` : the wording "line L column C";
* `Mark.isStart` : whether the place is where the text begins, which messages leave out.
-/

namespace CollectorTemplate.Yaml

/-- A place in a text, counted from zero. -/
structure Mark where
  /-- Characters before the place. -/
  index : Nat := 0
  /-- Bytes before the place. -/
  offset : Nat := 0
  /-- Line breaks before the place. -/
  line : Nat := 0
  /-- Characters between the last break and the place. -/
  column : Nat := 0
  deriving Repr, DecidableEq, Inhabited

namespace Mark

/-- The place after a character that is no line break. -/
def next (m : Mark) (c : Char) : Mark := ⟨m.index + 1, m.offset + c.utf8Size, m.line, m.column + 1⟩

/-- The place after characters that are no line breaks. -/
def past (m : Mark) (text : List Char) : Mark := text.foldl next m

/-- The place after `n` characters of ASCII that are no line breaks. -/
def forward (m : Mark) (n : Nat) : Mark := ⟨m.index + n, m.offset + n, m.line, m.column + n⟩

/-- The place after a line break. -/
def newline (m : Mark) (c : Char) : Mark := ⟨m.index + 1, m.offset + c.utf8Size, m.line + 1, 0⟩

/-- The place after a line break of two characters. -/
def pairedNewline (m : Mark) : Mark := ⟨m.index + 2, m.offset + 2, m.line + 1, 0⟩

/-- Whether the mark is at the first column of the first line. -/
def isStart (m : Mark) : Bool := m.line == 0 && m.column == 0

/-- Whether two marks are in the same line and column. -/
def samePlace (m n : Mark) : Bool := m.line == n.line && m.column == n.column

/-- The wording of a place, counted from one. -/
def text (m : Mark) : String := s!"line {m.line + 1} column {m.column + 1}"

end Mark

end CollectorTemplate.Yaml
