/-
Reading JSON.

* `Json.Value` : a value as it is written;
* `Json.unquote?` : a string, from behind its opening quote;
* `Json.parse?` : the value that a whole text writes, none if the text is no JSON;
* `Json.read?` : its data.

A reader of data takes arrays and objects that are nested 127 deep.  Members are kept as they are
written, repeated keys too.
-/
import CollectorTemplate.Json.Number
import CollectorTemplate.Text.Digits

namespace CollectorTemplate.Json

/-- A value as it is written. -/
inductive Value
  | null
  | bool (value : Bool)
  | number (number : Number)
  | string (value : String)
  | array (items : List Value)
  | object (members : List (String × Value))
  deriving Inhabited

/-- The white space of JSON. -/
def isSpace (c : Char) : Bool := c == ' ' || c == '\n' || c == '\t' || c == '\r'

/-- What follows white space. -/
def skipSpace (text : List Char) : List Char := text.dropWhile isSpace

/-- The code unit that four hexadecimal digits write. -/
def codeUnit? (a b c d : Char) : Option Nat := Text.hexValue? [a, b, c, d]

/-- The character of one letter behind a backslash. -/
def escape? (c : Char) : Option Char :=
  match c with
  | '"' => some '"'
  | '\\' => some '\\'
  | '/' => some '/'
  | 'b' => some '\x08'
  | 'f' => some '\x0c'
  | 'n' => some '\n'
  | 'r' => some '\r'
  | 't' => some '\t'
  | _ => none

/-- Whether a code unit is the first, or the second, of a pair. -/
def isLead (n : Nat) : Bool := 0xd800 ≤ n && n < 0xdc00

@[inherit_doc isLead]
def isTrail (n : Nat) : Bool := 0xdc00 ≤ n && n < 0xe000

/-- The character of a pair of code units. -/
def pair (lead trail : Nat) : Char :=
  Char.ofNat (0x10000 + (lead - 0xd800) * 0x400 + (trail - 0xdc00))

/-- A string and what follows its closing quote; `read` is what was read of it, latest first.
Control characters must be escaped, and code units must form characters. -/
def unquote? : List Char → List Char → Option (String × List Char)
  | [], _ => none
  | '"' :: rest, read => some (String.ofList read.reverse, rest)
  | '\\' :: 'u' :: a :: b :: c :: d :: rest, read =>
    match codeUnit? a b c d with
    | none => none
    | some n =>
      if isTrail n then none
      else if isLead n then
        match rest with
        | '\\' :: 'u' :: e :: f :: g :: h :: rest =>
          match codeUnit? e f g h with
          | none => none
          | some m => if isTrail m then unquote? rest (pair n m :: read) else none
        | _ => none
      else unquote? rest (Char.ofNat n :: read)
  | '\\' :: c :: rest, read => (escape? c).bind fun e => unquote? rest (e :: read)
  | c :: rest, read => if c == '\\' || c.toNat < 0x20 then none else unquote? rest (c :: read)

/-- The words of JSON. -/
def word? : List Char → Option (Value × List Char)
  | 'n' :: 'u' :: 'l' :: 'l' :: rest => some (.null, rest)
  | 't' :: 'r' :: 'u' :: 'e' :: rest => some (.bool true, rest)
  | 'f' :: 'a' :: 'l' :: 's' :: 'e' :: rest => some (.bool false, rest)
  | _ => none

/-- A scalar at the beginning of a text. -/
def scalar? (text : List Char) : Option (Value × List Char) :=
  match text with
  | '"' :: rest => (unquote? rest []).map fun (s, rest) => (.string s, rest)
  | c :: _ =>
    if c == '-' || c.isDigit then (Number.scan? text).map fun (n, rest) => (.number n, rest)
    else word? text
  | [] => none

mutual

/-- The value at the beginning of a text, behind white space.  Collections may be nested `depth`
deep. Each step takes a character, so `limit` steps suffice for a text of that length. -/
def value? (depth : Nat) : (limit : Nat) → List Char → Option (Value × List Char)
  | 0, _ => none
  | limit + 1, text =>
    match skipSpace text, depth with
    | '[' :: rest, depth + 1 =>
      match skipSpace rest with
      | ']' :: rest => some (.array [], rest)
      | rest => (items? depth limit rest).map fun (items, rest) => (.array items, rest)
    | '{' :: rest, depth + 1 =>
      match skipSpace rest with
      | '}' :: rest => some (.object [], rest)
      | rest => (members? depth limit rest).map fun (members, rest) => (.object members, rest)
    | text, _ => scalar? text

/-- The items of an array up to its closing bracket. -/
def items? (depth : Nat) : (limit : Nat) → List Char → Option (List Value × List Char)
  | 0, _ => none
  | limit + 1, text => do
    let (item, rest) ← value? depth limit text
    match skipSpace rest with
    | ',' :: rest => (items? depth limit rest).map fun (items, rest) => (item :: items, rest)
    | ']' :: rest => some ([item], rest)
    | _ => none

/-- The members of an object up to its closing brace. -/
def members? (depth : Nat) :
    (limit : Nat) → List Char → Option (List (String × Value) × List Char)
  | 0, _ => none
  | limit + 1, text =>
    match skipSpace text with
    | '"' :: rest => do
      let (key, rest) ← unquote? rest []
      match skipSpace rest with
      | ':' :: rest => do
        let (value, rest) ← value? depth limit rest
        match skipSpace rest with
        | ',' :: rest =>
          (members? depth limit rest).map fun (members, rest) => ((key, value) :: members, rest)
        | '}' :: rest => some ([(key, value)], rest)
        | _ => none
      | _ => none
    | _ => none

end

/-- The value that a whole text writes, with collections nested at most `depth` deep. -/
def parse? (depth : Nat) (text : String) : Option Value := do
  let chars := text.toList
  let (value, rest) ← value? depth (2 * chars.length + 2) chars
  if (skipSpace rest).isEmpty then some value else none

/-! ### Data -/

namespace Value

mutual

/-- The data of a value, none if a number in it is too large. -/
def untyped? : Value → Option Untyped
  | .null => some .null
  | .bool b => some (.bool b)
  | .number n => n.value?
  | .string s => some (.string s)
  | .array items => (itemsUntyped? items).map .sequence
  | .object members => (membersUntyped? members).map .mapping

def itemsUntyped? : List Value → Option (List Untyped)
  | [] => some []
  | item :: rest => do
    let data ← item.untyped?
    return data :: (← itemsUntyped? rest)

def membersUntyped? : List (String × Value) → Option (List (Untyped × Untyped))
  | [] => some []
  | (key, value) :: rest => do
    let data ← value.untyped?
    return (.string key, data) :: (← membersUntyped? rest)

end

end Value

/-- How deeply arrays and objects may be nested in data. -/
def depthLimit : Nat := 127

/-- The data of a whole text. -/
def read? (text : String) : Option Untyped := (parse? depthLimit text).bind (·.untyped?)

end CollectorTemplate.Json
