/-
Writing JSON.

* `Json.quote` : a string; only what JSON demands is escaped;
* `Json.compact` : a tree on one line without spaces;
* `Json.pretty` : a tree with one entry a line, indented by two spaces a level.

Numbers that JSON cannot express are written as null.
-/
import CollectorTemplate.Decimal.Format
import CollectorTemplate.Tree

namespace CollectorTemplate.Json

/-- Numbers are written with all their places between 10⁻⁵ and 10¹⁶, and otherwise with an exponent
that has a sign. -/
def number : NumberFormat where
  plainFrom := -5
  plainBelow := 16
  exponentPlus := true
  nan := "null"
  infinity := "null"
  negativeInfinity := "null"

/-- The two hexadecimal digits of a control character. -/
def controlDigits (c : Char) : List Char :=
  [Nat.digitChar (c.toNat / 16), Nat.digitChar (c.toNat % 16)]

/-- A character in a string. -/
def quoteChar (c : Char) : List Char :=
  match c with
  | '"' => ['\\', '"']
  | '\\' => ['\\', '\\']
  | '\x08' => ['\\', 'b']
  | '\t' => ['\\', 't']
  | '\n' => ['\\', 'n']
  | '\x0c' => ['\\', 'f']
  | '\r' => ['\\', 'r']
  | c => if c.toNat < 0x20 then '\\' :: 'u' :: '0' :: '0' :: controlDigits c else [c]

def quote (text : String) : List Char := '"' :: text.toList.flatMap quoteChar ++ ['"']

mutual

/-- A tree on one line. -/
def compact : Tree → List Char
  | .null => "null".toList
  | .bool b => (toString b).toList
  | .integer n => (toString n).toList
  | .float x => (number.render x).toList
  | .string s => quote s
  | .sequence items => '[' :: compactItems items ++ [']']
  | .mapping entries => '{' :: compactEntries entries ++ ['}']

/-- The items of a sequence, with commas between them. -/
def compactItems : List Tree → List Char
  | [] => []
  | [item] => compact item
  | item :: rest => compact item ++ ',' :: compactItems rest

/-- The entries of a mapping, with commas between them. -/
def compactEntries : List (String × Tree) → List Char
  | [] => []
  | [(k, v)] => quote k ++ ':' :: compact v
  | (k, v) :: rest => quote k ++ ':' :: compact v ++ ',' :: compactEntries rest

end

/-- The beginning of a line at a level. -/
def newline (level : Nat) : List Char := '\n' :: List.replicate (2 * level) ' '

mutual

/-- A tree whose first line stands at a level. -/
def prettyAt (level : Nat) : Tree → List Char
  | .null => "null".toList
  | .bool b => (toString b).toList
  | .integer n => (toString n).toList
  | .float x => (number.render x).toList
  | .string s => quote s
  | .sequence [] => ['[', ']']
  | .sequence (item :: rest) =>
    '[' :: prettyItems (level + 1) (item :: rest) ++ newline level ++ [']']
  | .mapping [] => ['{', '}']
  | .mapping (entry :: rest) =>
    '{' :: prettyEntries (level + 1) (entry :: rest) ++ newline level ++ ['}']

/-- The items of a sequence, each on lines of its own. -/
def prettyItems (level : Nat) : List Tree → List Char
  | [] => []
  | [item] => newline level ++ prettyAt level item
  | item :: rest => newline level ++ prettyAt level item ++ ',' :: prettyItems level rest

/-- The entries of a mapping, each on lines of its own. -/
def prettyEntries (level : Nat) : List (String × Tree) → List Char
  | [] => []
  | [(k, v)] => newline level ++ quote k ++ ':' :: ' ' :: prettyAt level v
  | (k, v) :: rest =>
    newline level ++ quote k ++ ':' :: ' ' :: prettyAt level v ++ ',' :: prettyEntries level rest

end

/-- A tree on several lines. -/
def pretty (tree : Tree) : String := String.ofList (prettyAt 0 tree)

end CollectorTemplate.Json

/-- A tree is shown as JSON. -/
def CollectorTemplate.Tree.text (tree : CollectorTemplate.Tree) : String :=
  String.ofList (CollectorTemplate.Json.compact tree)
