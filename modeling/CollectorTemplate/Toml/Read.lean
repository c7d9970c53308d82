/-
Reading TOML.

A text is a sequence of lines: entries, headers and blank ones.  An entry belongs to the table whose
header came last.

* `Toml.key?` : the key of an entry or a header;
* `Toml.value?` : the value of an entry;
* `Toml.read?` : the entries of a whole text, none if the text is no TOML.

Arrays and tables in braces may be nested 80 deep, and a key may have as many parts.
-/
import CollectorTemplate.Toml.Number
import CollectorTemplate.Toml.Quoted
import CollectorTemplate.Toml.Value

namespace CollectorTemplate.Toml

/-! ### Keys -/

/-- What follows blanks. -/
def skipBlanks (text : List Char) : List Char := text.dropWhile isBlank

/-- The characters of keys without quotes. -/
def isBare (c : Char) : Bool := c.isAlphanum || c == '_' || c == '-'

/-- One part of a key. -/
def part? : List Char → Option (String × List Char)
  | '"' :: rest => Quoted.basic? rest
  | '\'' :: rest => Quoted.literal? rest
  | text =>
    let bare := text.takeWhile isBare
    if bare.isEmpty then none else some (String.ofList bare, text.dropWhile isBare)

/-- A key: the path that leads to its table, and its last part. -/
structure Key where
  path : List String
  last : String
  deriving Repr, DecidableEq, Inhabited

/-- How deeply arrays and tables in braces may be nested, and how many parts a key may have. -/
def depthLimit : Nat := 80

/-- The key at the beginning of a text, of no more parts than `limit`, and what follows it and the
blanks behind it.  Points, with or without blanks around them, stand between the parts. -/
def keyFrom? : (limit : Nat) → List Char → Option (Key × List Char)
  | 0, _ => none
  | limit + 1, text => do
    let (first, rest) ← part? text
    match skipBlanks rest with
    | '.' :: rest =>
      (keyFrom? limit (skipBlanks rest)).map fun (key, rest) =>
        (⟨first :: key.path, key.last⟩, rest)
    | rest => some (⟨[], first⟩, rest)

@[inherit_doc keyFrom?]
def key? (text : List Char) : Option (Key × List Char) := keyFrom? depthLimit text

/-! ### Values -/

/-- The characters of values that are not quoted. -/
def isWord (c : Char) : Bool :=
  !isBlank c && c != '\n' && c != '\r' && c != ',' && c != ']' && c != '}' && c != '#'

def word? (word : List Char) : Option Value :=
  if word = "true".toList then some (.boolean true)
  else if word = "false".toList then some (.boolean false)
  else
    ((integer? word).map .integer).or <| ((float? word).map .float).or <|
      (Moment.read? word).map .moment

/-- The word at the beginning of a text.  A date and a time with one space between them are one
word. -/
def scanWord (text : List Char) : List Char × List Char :=
  let word := text.takeWhile isWord
  let rest := text.dropWhile isWord
  match rest with
  | ' ' :: d :: more =>
    if d.isDigit ∧ (Date.scan? word).any (·.2.isEmpty) then
      (word ++ ' ' :: (d :: more).takeWhile isWord, (d :: more).dropWhile isWord)
    else (word, rest)
  | _ => (word, rest)

/-- The value at the beginning of a text that is neither an array nor a table. -/
def scalar? : List Char → Option (Value × List Char)
  | '"' :: '"' :: '"' :: rest => (Quoted.basicLines? rest).map fun (s, rest) => (.string s, rest)
  | '"' :: rest => (Quoted.basic? rest).map fun (s, rest) => (.string s, rest)
  | '\'' :: '\'' :: '\'' :: rest =>
    (Quoted.literalLines? rest).map fun (s, rest) => (.string s, rest)
  | '\'' :: rest => (Quoted.literal? rest).map fun (s, rest) => (.string s, rest)
  | text =>
    let (word, rest) := scanWord text
    (word? word).map fun value => (value, rest)

/-- What follows blanks, line breaks and comments; `comment` says whether the text begins inside
one. -/
def skipGap : (comment : Bool) → List Char → List Char
  | _, [] => []
  | _, '\n' :: rest => skipGap false rest
  | _, '\r' :: '\n' :: rest => skipGap false rest
  | true, c :: rest => if isPrintable c then skipGap true rest else c :: rest
  | false, c :: rest =>
    if isBlank c then skipGap false rest else if c = '#' then skipGap true rest else c :: rest

mutual

/-- The value at the beginning of a text.  Arrays and tables may be nested `depth` deep.  Each step
takes a character, so `limit` steps suffice for a text of that length. -/
def valueFrom? (depth : Nat) : (limit : Nat) → List Char → Option (Value × List Char)
  | 0, _ => none
  | limit + 1, text =>
    match text, depth with
    | '[' :: rest, depth + 1 =>
      (items? depth limit rest).map fun (items, rest) => (.array items, rest)
    | '{' :: rest, depth + 1 =>
      (members? depth limit [] rest).map fun (entries, rest) => (.table .inline entries, rest)
    | '[' :: _, 0 => none
    | '{' :: _, 0 => none
    | text, _ => scalar? text

/-- The items of an array up to its closing bracket.  A comma may stand behind the last. -/
def items? (depth : Nat) : (limit : Nat) → List Char → Option (List Value × List Char)
  | 0, _ => none
  | limit + 1, text =>
    match skipGap false text with
    | ']' :: rest => some ([], rest)
    | text => do
      let (item, rest) ← valueFrom? depth limit text
      match skipGap false rest with
      | ',' :: rest => (items? depth limit rest).map fun (items, rest) => (item :: items, rest)
      | ']' :: rest => some ([item], rest)
      | _ => none

/-- The entries of a table up to its closing brace, behind those read already.  A comma may stand
behind the last. -/
def members? (depth : Nat) : (limit : Nat) → Table → List Char → Option (Table × List Char)
  | 0, _, _ => none
  | limit + 1, entries, text =>
    match skipGap false text with
    | '}' :: rest => some (entries, rest)
    | text => do
      let (key, rest) ← key? text
      match skipGap false rest with
      | '=' :: rest => do
        let (value, rest) ← valueFrom? depth limit (skipGap false rest)
        let entries ← assign key.path key.last value entries
        match skipGap false rest with
        | ',' :: rest => members? depth limit entries rest
        | '}' :: rest => some (entries, rest)
        | _ => none
      | _ => none

end

@[inherit_doc valueFrom?]
def value? (text : List Char) : Option (Value × List Char) :=
  valueFrom? depthLimit (2 * text.length + 2) text

/-! ### Lines -/

/-- What has been read of a text. -/
structure Reading where
  /-- The path of the header that came last. -/
  header : List String := []
  entries : Table := []
  deriving Repr, Inhabited

/-- What follows the end of a line, before which blanks and a comment may stand. -/
def endLine? (text : List Char) : Option (List Char) :=
  let rest :=
    match skipBlanks text with
    | '#' :: rest => rest.dropWhile isPrintable
    | rest => rest
  match rest with
  | [] => some []
  | '\n' :: rest => some rest
  | '\r' :: '\n' :: rest => some rest
  | _ => none

def entry? (r : Reading) (text : List Char) : Option (Reading × List Char) := do
  let (key, rest) ← key? text
  match rest with
  | '=' :: rest => do
    let (value, rest) ← value? (skipBlanks rest)
    let entries ←
      within false (fun _ table => assign key.path key.last value table) r.header .header r.entries
    return ({ r with entries }, rest)
  | _ => none

/-- Reads what a line holds: a header, an entry or nothing. -/
def content? (r : Reading) (text : List Char) : Option (Reading × List Char) :=
  match text with
  | '[' :: '[' :: rest => do
    let (key, rest) ← key? (skipBlanks rest)
    match rest with
    | ']' :: ']' :: rest =>
      return (⟨key.path ++ [key.last], ← openItem key.path key.last r.entries⟩, rest)
    | _ => none
  | '[' :: rest => do
    let (key, rest) ← key? (skipBlanks rest)
    match rest with
    | ']' :: rest =>
      return (⟨key.path ++ [key.last], ← openTable key.path key.last r.entries⟩, rest)
    | _ => none
  | _ => if (endLine? text).isSome then some (r, text) else entry? r text

/-- Reads all lines, of which there are no more than `limit`. -/
def lines? : (limit : Nat) → Reading → List Char → Option Reading
  | 0, _, _ => none
  | limit + 1, r, text =>
    if text.isEmpty then some r
    else do
      let (r, rest) ← content? r (skipBlanks text)
      lines? limit r (← endLine? rest)

/-- The entries of a whole text.  A mark of the byte order may stand at its beginning. -/
def read? (text : String) : Option Table :=
  let chars :=
    match text.toList with
    | '\ufeff' :: rest => rest
    | chars => chars
  (lines? (chars.length + 1) {} chars).map (·.entries)

end CollectorTemplate.Toml
