/-
Reading positions.

A `Cursor` is the text still to be read together with the mark of the place reached.  Marks count a
CR followed by LF as one line break.

* `Cursor.dropWhile`, `Cursor.takeWhile` : over characters that are no line breaks;
* `Cursor.newline` : over one line break;
* `Cursor.atDocumentMark` : whether a document marker stands here.
-/
import CollectorTemplate.Yaml.Fault
import CollectorTemplate.Yaml.Character

namespace CollectorTemplate.Yaml

/-- The text still to be read, and where it begins. -/
structure Cursor where
  rest : List Char
  mark : Mark
  deriving Repr, DecidableEq, Inhabited

namespace Cursor

/-- The beginning of a text. -/
def start (text : List Char) : Cursor := ⟨text, {}⟩

/-- The character here, none at the end of the text. -/
def peek? (c : Cursor) : Option Char := c.rest.head?

/-- Over one character that is no line break. -/
def next (c : Cursor) : Cursor :=
  match c.rest with
  | x :: rest => ⟨rest, c.mark.next x⟩
  | [] => c

/-- Over `n` characters of ASCII that are no line breaks. -/
def forward (c : Cursor) (n : Nat) : Cursor := ⟨c.rest.drop n, c.mark.forward n⟩

/-- Over the characters that satisfy `p`, none of which is a line break. -/
def dropWhile (p : Char → Bool) (c : Cursor) : Cursor :=
  ⟨c.rest.dropWhile p, c.mark.past (c.rest.takeWhile p)⟩

/-- The characters from here on that satisfy `p`. -/
def takeWhile (p : Char → Bool) (c : Cursor) : List Char := c.rest.takeWhile p

/-- Over blanks. -/
def skipBlanks (c : Cursor) : Cursor := c.dropWhile isBlank

/-- Over a comment, if one begins here. -/
def skipComment (c : Cursor) : Cursor :=
  if c.peek? = some '#' then c.dropWhile (!isBreak ·) else c

/-- Over a line break, if one is here. -/
def newline (c : Cursor) : Cursor :=
  match c.rest with
  | '\r' :: '\n' :: rest => ⟨rest, c.mark.pairedNewline⟩
  | b :: rest => if isBreak b then ⟨rest, c.mark.newline b⟩ else c
  | [] => c

/-- Whether the line, or the text, ends here. -/
def atLineEnd (c : Cursor) : Bool :=
  match c.rest with
  | [] => true
  | b :: _ => isBreak b

/-- Whether a blank, a line break or the end of the text is here. -/
def atGap (c : Cursor) : Bool :=
  match c.rest with
  | [] => true
  | b :: _ => isSpacing b

/-- A fault met here while reading something that began at `start`. -/
def fault (c : Cursor) (problem : Problem) (context : Context) (start : Mark) : Fault :=
  ⟨problem, c.mark, some (context, start)⟩

end Cursor

/-- Whether characters begin with a gap, or there are none. -/
def gapAhead : List Char → Bool
  | [] => true
  | c :: _ => isSpacing c

/-- Whether a line that begins with these characters is a document marker, of dashes or of dots. -/
def isDocumentMark : List Char → Bool
  | '-' :: '-' :: '-' :: rest => gapAhead rest
  | '.' :: '.' :: '.' :: rest => gapAhead rest
  | _ => false

/-- Whether a document marker stands at the cursor. -/
def Cursor.atDocumentMark (c : Cursor) : Bool := c.mark.column == 0 && isDocumentMark c.rest

end CollectorTemplate.Yaml
