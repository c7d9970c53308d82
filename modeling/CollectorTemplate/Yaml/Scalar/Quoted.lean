/-
Quoted scalars.

Inside single quotes only the quote itself is special, and is written twice.  Inside double quotes a
backslash begins an escape.  Both fold line breaks, and neither may run over a document marker.

* `Quoted.escape?` : the escapes of one character;
* `Quoted.single`, `Quoted.double` : the text of the scalar whose opening quote is at the cursor,
  and the cursor after its closing quote.
-/
import CollectorTemplate.Text.Digits
import CollectorTemplate.Yaml.Cursor
import CollectorTemplate.Yaml.Scalar.Gap

namespace CollectorTemplate.Yaml.Quoted

/-- What of a quoted scalar has been read; `text` holds the latest character first. -/
structure Partial where
  text : List Char := []
  gap : Gap := {}
  deriving Repr, DecidableEq, Inhabited

namespace Partial

/-- The text with the gap that was read since. -/
def settle (p : Partial) : Partial := ⟨p.gap.text.reverse ++ p.text, {}⟩

/-- One more character of a word. -/
def push (p : Partial) (c : Char) : Partial := { p.settle with text := c :: p.settle.text }

end Partial

/-- A fault met at `mark` in a quoted scalar that began at `start`. -/
def fault (problem : Problem) (mark start : Mark) : Fault :=
  ⟨problem, mark, some (.quotedScalar, start)⟩

/-- Reads on inside single quotes. -/
def singleFrom (start : Mark) : List Char → Mark → Partial → Except Fault (Partial × Cursor)
  | [], mark, _ => .error (fault .endOfText mark start)
  | '\r' :: '\n' :: rest, mark, p =>
    singleFrom start rest mark.pairedNewline { p with gap := p.gap.newline '\n' }
  | '\'' :: '\'' :: rest, mark, p => singleFrom start rest (mark.forward 2) (p.push '\'')
  | c :: rest, mark, p =>
    if isBreak c then singleFrom start rest (mark.newline c) { p with gap := p.gap.newline c }
    else if isBlank c then singleFrom start rest (mark.next c) { p with gap := p.gap.blank c }
    else if mark.column == 0 && isDocumentMark (c :: rest) then
      .error (fault .documentMark mark start)
    else if c = '\'' then .ok (p.settle, ⟨rest, mark.next c⟩)
    else singleFrom start rest (mark.next c) (p.push c)

/-- The character that a backslash before `c` stands for. -/
def escape? (c : Char) : Option Char :=
  match c with
  | '0' => some '\x00'
  | 'a' => some '\x07'
  | 'b' => some '\x08'
  | 't' => some '\t'
  | '\t' => some '\t'
  | 'n' => some '\n'
  | 'v' => some '\x0b'
  | 'f' => some '\x0c'
  | 'r' => some '\r'
  | 'e' => some '\x1b'
  | ' ' => some ' '
  | '"' => some '"'
  | '/' => some '/'
  | '\\' => some '\\'
  | 'N' => some '\u0085'
  | '_' => some '\u00a0'
  | 'L' => some '\u2028'
  | 'P' => some '\u2029'
  | _ => none

/-- The character that hexadecimal digits write, read at `mark`. -/
def escapedCode (digits : List Char) (mark start : Mark) : Except Fault Char :=
  match Text.hexValue? digits with
  | none => .error ⟨.noHexDigit, mark, some (.quotedEscape, start)⟩
  | some n =>
    match Text.codePoint? n with
    | none => .error ⟨.badCodePoint, mark, some (.quotedEscape, start)⟩
    | some c => .ok c

/-- Reads on inside double quotes. -/
def doubleFrom (start : Mark) : List Char → Mark → Partial → Except Fault (Partial × Cursor)
  | [], mark, _ => .error (fault .endOfText mark start)
  | '\r' :: '\n' :: rest, mark, p =>
    doubleFrom start rest mark.pairedNewline { p with gap := p.gap.newline '\n' }
  | '\\' :: '\r' :: '\n' :: rest, mark, p =>
    doubleFrom start rest (mark.forward 1).pairedNewline { p.settle with gap := .escaped }
  | '\\' :: 'x' :: d1 :: d2 :: rest, mark, p => do
    let c ← escapedCode [d1, d2] (mark.forward 2) start
    doubleFrom start rest (mark.forward 4) (p.push c)
  | '\\' :: 'u' :: d1 :: d2 :: d3 :: d4 :: rest, mark, p => do
    let c ← escapedCode [d1, d2, d3, d4] (mark.forward 2) start
    doubleFrom start rest (mark.forward 6) (p.push c)
  | '\\' :: 'U' :: d1 :: d2 :: d3 :: d4 :: d5 :: d6 :: d7 :: d8 :: rest, mark, p => do
    let c ← escapedCode [d1, d2, d3, d4, d5, d6, d7, d8] (mark.forward 2) start
    doubleFrom start rest (mark.forward 10) (p.push c)
  | '\\' :: c :: rest, mark, p =>
    if isBreak c then
      doubleFrom start rest ((mark.forward 1).newline c) { p.settle with gap := .escaped }
    else if c = 'x' ∨ c = 'u' ∨ c = 'U' then
      .error ⟨.noHexDigit, mark.forward 2, some (.quotedEscape, start)⟩
    else
      match escape? c with
      | some e => doubleFrom start rest (mark.forward 2) (p.push e)
      | none => .error ⟨.unknownEscape, mark, some (.quotedEscape, start)⟩
  | c :: rest, mark, p =>
    if isBreak c then doubleFrom start rest (mark.newline c) { p with gap := p.gap.newline c }
    else if isBlank c then doubleFrom start rest (mark.next c) { p with gap := p.gap.blank c }
    else if mark.column == 0 && isDocumentMark (c :: rest) then
      .error (fault .documentMark mark start)
    else if c = '"' then .ok (p.settle, ⟨rest, mark.next c⟩)
    else if c = '\\' then .error ⟨.unknownEscape, mark, some (.quotedEscape, start)⟩
    else doubleFrom start rest (mark.next c) (p.push c)

/-- The scalar in single quotes that opens at the cursor. -/
def single (c : Cursor) : Except Fault (List Char × Cursor) := do
  let (p, stop) ← singleFrom c.mark c.rest.tail (c.mark.forward 1) {}
  return (p.text.reverse, stop)

/-- The scalar in double quotes that opens at the cursor. -/
def double (c : Cursor) : Except Fault (List Char × Cursor) := do
  let (p, stop) ← doubleFrom c.mark c.rest.tail (c.mark.forward 1) {}
  return (p.text.reverse, stop)

end CollectorTemplate.Yaml.Quoted
