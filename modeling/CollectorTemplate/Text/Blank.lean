/-
White space and lines.

* `isSpace` : white space of any script, as against `isAsciiSpace`;
* `trim`, `isBlank` : texts without the white space around them;
* `lines` : the lines of a text, which LF ends, with or without a CR before it.
-/

namespace CollectorTemplate.Text

/-- White space of any script. -/
def isSpace (c : Char) : Bool :=
  let n := c.toNat
  (0x9 ≤ n && n ≤ 0xd) || n == 0x20 || n == 0x85 || n == 0xa0 || n == 0x1680 ||
  (0x2000 ≤ n && n ≤ 0x200a) || n == 0x2028 || n == 0x2029 || n == 0x202f || n == 0x205f ||
  n == 0x3000

/-- The white space among the ASCII characters, the vertical tab apart. -/
def isAsciiSpace (c : Char) : Bool :=
  c == ' ' || c == '\t' || c == '\n' || c == '\x0c' || c == '\r'

/-- A text without the white space around it. -/
def trim (text : List Char) : List Char :=
  ((text.dropWhile isSpace).reverse.dropWhile isSpace).reverse

/-- Whether a text holds nothing but white space. -/
def isBlank (text : String) : Bool := text.toList.all isSpace

/-- A line without the CR before the LF that ended it. -/
def dropReturn (line : List Char) : List Char :=
  if line.getLast? = some '\r' then line.dropLast else line

/-- The lines of a text.  What follows the last LF is a line too, be it empty. -/
def lines (text : List Char) : List (List Char) :=
  go text []
where
  /-- Reads on in a line of which `line` was read, latest character first. -/
  go : List Char → List Char → List (List Char)
    | [], line => [line.reverse]
    | c :: rest, line =>
      if c = '\n' then dropReturn line.reverse :: go rest [] else go rest (c :: line)

end CollectorTemplate.Text
