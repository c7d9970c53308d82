/-
Texts as they are read.

Control characters may not stand in a text.  Since texts are read in blocks, the whole block that
holds such a character is lost, and what came before it is still read.

* `Source.ofString` : the part of a text that can be read, and the byte offset of the character that
  stops the reading there, if any.
-/
import CollectorTemplate.Yaml.Character

namespace CollectorTemplate.Yaml

/-- The part of a text that can be read. -/
structure Source where
  chars : List Char
  /-- The byte offset of the character that makes what follows unreadable. -/
  cut : Option Nat := none
  deriving Repr, DecidableEq, Inhabited

namespace Source

/-- How many bytes are read at a time. -/
def blockSize : Nat := 16384

/-- Reads on at byte `offset`.  The block being read began at byte `opened` and so far holds
`block`; `before` are the earlier blocks.  Both hold the latest character first. -/
def readFrom : List Char → (offset opened : Nat) → (block before : List Char) → Source
  | [], _, _, block, before => ⟨(block ++ before).reverse, none⟩
  | c :: rest, offset, opened, block, before =>
    let size := c.utf8Size
    let (opened, block, before) :=
      if opened + blockSize < offset + size then (offset, [], block ++ before)
      else (opened, block, before)
    if isReadable c then readFrom rest (offset + size) opened (c :: block) before
    else ⟨before.reverse, some offset⟩

/-- The readable part of a text. -/
def ofString (text : String) : Source :=
  if text.toList.all isReadable then ⟨text.toList, none⟩ else readFrom text.toList 0 0 [] []

end Source

end CollectorTemplate.Yaml
