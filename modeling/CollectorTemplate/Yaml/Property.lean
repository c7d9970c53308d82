/-
Anchors, aliases and tags.

* `Property.name` : the name after an anchor's or alias's indicator;
* `Property.uri` : the characters of a tag, with escaped octets decoded;
* `Property.tag` : a tag, as a handle and a suffix.
-/
import CollectorTemplate.Text.Digits
import CollectorTemplate.Yaml.Cursor
import CollectorTemplate.Yaml.Token

namespace CollectorTemplate.Yaml.Property

/-- The characters that may follow the name of an anchor or alias. -/
def endsName (c : Cursor) : Bool :=
  c.atGap || (c.rest.head?.any fun x =>
    x == '?' || x == ':' || x == ',' || x == ']' || x == '}' || x == '%' || x == '@' || x == '\x60')

/-- The name whose indicator is at the cursor. -/
def name (context : Context) (c : Cursor) : Except Fault (List Char × Cursor) :=
  let found := c.next.takeWhile isWord
  let stop := c.next.dropWhile isWord
  if found.isEmpty || !endsName stop then .error (stop.fault .noName context c.mark)
  else .ok (found, stop)

/-! ### Escaped octets -/

/-- The octet that a percent sign and two hexadecimal digits write. -/
def octet? : List Char → Option Nat
  | '%' :: h :: l :: _ => do return 16 * (← Text.hexDigit? h) + (← Text.hexDigit? l)
  | _ => none

/-- How many octets the character has that begins with `octet`. -/
def octetCount? (octet : Nat) : Option Nat :=
  if octet < 0x80 then some 1
  else if octet / 32 = 6 then some 2
  else if octet / 16 = 14 then some 3
  else if octet / 8 = 30 then some 4
  else none

/-- The character that octets encode, if they are its shortest encoding. -/
def character? : List Nat → Option Char
  | [a] => some (Char.ofNat a)
  | [a, b] => scalar? 0x80 ((a - 0xc0) * 64 + (b - 0x80))
  | [a, b, c] => scalar? 0x800 (((a - 0xe0) * 64 + (b - 0x80)) * 64 + (c - 0x80))
  | [a, b, c, d] =>
    scalar? 0x10000 ((((a - 0xf0) * 64 + (b - 0x80)) * 64 + (c - 0x80)) * 64 + (d - 0x80))
  | _ => none
where
  /-- The character of a code point that is no less than `least`. -/
  scalar? (least n : Nat) : Option Char :=
    if least ≤ n ∧ n.isValidChar then some (Char.ofNat n) else none

/-- The `count` octets after the first of an escaped character. -/
def trailingOctets (context : Context) (start : Mark) :
    Nat → Cursor → Except Fault (List Nat × Cursor)
  | 0, c => .ok ([], c)
  | count + 1, c =>
    match octet? c.rest with
    | none => .error (c.fault .noTagEscape context start)
    | some octet =>
      if octet / 64 = 2 then do
        let (octets, c) ← trailingOctets context start count (c.forward 3)
        return (octet :: octets, c)
      else .error (c.fault .badTagTrail context start)

/-- The character whose escaped octets begin at the cursor, none if they encode no character. -/
def escaped (context : Context) (start : Mark) (c : Cursor) :
    Except Fault (Option Char × Cursor) :=
  match octet? c.rest with
  | none => .error (c.fault .noTagEscape context start)
  | some lead =>
    match octetCount? lead with
    | none => .error (c.fault .badTagLead context start)
    | some count => do
      let (octets, c) ← trailingOctets context start (count - 1) (c.forward 3)
      return (character? (lead :: octets), c)

/-! ### Tags -/

/-- Reads tag characters on, at most `limit` of them.  Text read so far is in `text`, latest
first. -/
def uriFrom (flow : Bool) (context : Context) (start : Mark) :
    Nat → Cursor → TagText → Except Fault (TagText × Cursor)
  | 0, c, text => .ok (text, c)
  | limit + 1, c, text =>
    match c.rest with
    | [] => .ok (text, c)
    | x :: _ =>
      if x = '%' then do
        let (found, c) ← escaped context start c
        uriFrom flow context start limit c
          ⟨found.getD '\ufffd' :: text.chars, text.decodes && found.isSome⟩
      else if isUri flow x then
        uriFrom flow context start limit c.next ⟨x :: text.chars, text.decodes⟩
      else .ok (text, c)

/-- The tag characters at the cursor, after what `head` already holds of them.  There must be
some. -/
def uri (flow : Bool) (context : Context) (start : Mark) (head : List Char) (c : Cursor) :
    Except Fault (TagText × Cursor) := do
  let (text, stop) ← uriFrom flow context start c.rest.length c ⟨head.tail.reverse, true⟩
  if head.isEmpty ∧ stop.mark.index = c.mark.index then
    throw (stop.fault .noTagUri context start)
  return (TagText.untilNul ⟨text.chars.reverse, text.decodes⟩, stop)

/-- A handle as far as it goes: an exclamation mark, a name, and a second exclamation mark if one
follows. -/
def handle (context : Context) (start : Mark) (c : Cursor) : Except Fault (List Char × Cursor) :=
  if c.peek? = some '!' then
    let found := '!' :: c.next.takeWhile isWord
    let stop := c.next.dropWhile isWord
    if stop.peek? = some '!' then .ok (found ++ ['!'], stop.next) else .ok (found, stop)
  else .error (c.fault .noTagMark context start)

/-- Whether a handle is closed by a second exclamation mark. -/
def isClosed (handle : List Char) : Bool := 2 ≤ handle.length && handle.getLast? == some '!'

/-- A handle and a suffix; a lone exclamation mark is the suffix of the empty handle. -/
def split (suffix : TagText) : List Char × TagText :=
  if suffix.chars.isEmpty then ([], ⟨['!'], true⟩) else (['!'], suffix)

def tag (flow : Bool) (c : Cursor) : Except Fault (Token × Cursor) := do
  let ((found, suffix), stop) ←
    if c.next.peek? = some '<' then do
      let (suffix, stop) ← uri true .tagUri c.mark [] (c.forward 2)
      if stop.peek? = some '>' then pure (([], suffix), stop.next)
      else throw (stop.fault .noTagClose .tag c.mark)
    else do
      let (found, stop) ← handle .tag c.mark c
      if isClosed found then
        let (suffix, stop) ← uri false .tagUri c.mark [] stop
        pure ((found, suffix), stop)
      else
        let (suffix, stop) ← uri false .tagUri c.mark found stop
        pure (split suffix, stop)
  if stop.atGap || (flow && stop.peek? == some ',') then return (.tag found suffix, stop)
  else throw (stop.fault .noTagEnd .tag c.mark)

end CollectorTemplate.Yaml.Property
