/-
Character classes of YAML.

Lines end at five characters, only the space and the tab are blanks, and the control characters may
not stand in a text at all.

* `isBreak`, `isBlank` : what ends a line and what separates words;
* `isReadable` : what a text may hold;
* `isWord`, `isUri` : what names, directives and tags are made of.
-/

namespace CollectorTemplate.Yaml

/-- The line breaks: CR, LF, NEL, LS and PS. -/
def isBreak (c : Char) : Bool :=
  c == '\r' || c == '\n' || c == '\u0085' || c == '\u2028' || c == '\u2029'

/-- The blanks: space and tab. -/
def isBlank (c : Char) : Bool := c == ' ' || c == '\t'

/-- Blanks and line breaks. -/
def isSpacing (c : Char) : Bool := isBlank c || isBreak c

/-- The characters of anchor names, handles and directive names. -/
def isWord (c : Char) : Bool := c.isAlphanum || c == '_' || c == '-'

/-- The characters a tag may hold; the flow indicators among them only where `flow` says so. -/
def isUri (flow : Bool) (c : Char) : Bool :=
  isWord c || c == ';' || c == '/' || c == '?' || c == ':' || c == '@' || c == '&' || c == '=' ||
  c == '+' || c == '$' || c == '.' || c == '%' || c == '!' || c == '~' || c == '*' || c == '\'' ||
  c == '(' || c == ')' || (flow && (c == ',' || c == '[' || c == ']'))

/-- The characters that a text may hold: tab, LF, CR, NEL, and all that is no control character or
noncharacter at the end of the basic plane. -/
def isReadable (c : Char) : Bool :=
  let n := c.toNat
  n == 0x9 || n == 0xa || n == 0xd || (0x20 ≤ n && n ≤ 0x7e) || n == 0x85 ||
  (0xa0 ≤ n && n ≤ 0xd7ff) || (0xe000 ≤ n && n ≤ 0xfffd) || 0x10000 ≤ n

/-- A line break as it enters a scalar: LS and PS as themselves, any other as LF. -/
def breakText (c : Char) : Char := if c == '\u2028' || c == '\u2029' then c else '\n'

end CollectorTemplate.Yaml
