/-
Tokens of YAML.

The tokens are the indicators, the scalars and the properties of nodes, with block structure already
turned from indentation into opening and closing tokens.

* `Token` : what stands in the text;
* `Lexeme` : a token with the places where it begins and ends.
-/
import CollectorTemplate.Yaml.Mark

namespace CollectorTemplate.Yaml

/-- How a scalar is written. -/
inductive Style
  | plain
  | singleQuoted
  | doubleQuoted
  | literal
  | folded
  deriving Repr, DecidableEq, Inhabited

/-- The text of a tag or of a part of it.  Escaped octets that form no character leave the text
without a reading, which `decodes` records. -/
structure TagText where
  /-- The characters, with a replacement character for octets that form none. -/
  chars : List Char
  /-- Whether all escaped octets form characters. -/
  decodes : Bool := true
  deriving Repr, DecidableEq, Inhabited

namespace TagText

/-- One tag text after another. -/
def append (a b : TagText) : TagText := ⟨a.chars ++ b.chars, a.decodes && b.decodes⟩

/-- The text before the first NUL, which ends a tag. -/
def untilNul (a : TagText) : TagText := ⟨a.chars.takeWhile (· != '\x00'), a.decodes⟩

end TagText

inductive Token
  | streamEnd
  | version (major minor : Nat)
  | tagHandle (handle : List Char) (expansion : TagText)
  | documentStart
  | documentEnd
  | blockSequence
  | blockMapping
  | blockEnd
  | sequenceOpen
  | sequenceClose
  | mappingOpen
  | mappingClose
  | blockEntry
  | flowEntry
  | key
  | value
  | reference (name : List Char)
  | anchor (name : List Char)
  | tag (handle : List Char) (suffix : TagText)
  | scalar (style : Style) (text : List Char)
  deriving Repr, DecidableEq, Inhabited

/-- A token and where it stands. -/
structure Lexeme where
  token : Token
  /-- Where the token begins. -/
  start : Mark
  /-- The place after the token. -/
  stop : Mark
  deriving Repr, DecidableEq, Inhabited

end CollectorTemplate.Yaml
