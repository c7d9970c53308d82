/-
Writing YAML.

Collections are written in block style, those without content in flow style.  The items of a
sequence stand in the column of the key they belong to, the entries of a mapping two columns
further.

* `Yaml.write` : the document of a tree.
-/
import CollectorTemplate.Tree
import CollectorTemplate.Yaml.Scalar.Number
import CollectorTemplate.Yaml.Scalar.Written

namespace CollectorTemplate.Yaml

open Scalar (indentation spaces)

/-- What a node follows. -/
inductive Lead
  /-- The colon behind a key of the same line. -/
  | key
  /-- A dash, or a colon that begins a line: the first line of a collection follows at once. -/
  | mark
  deriving Repr, DecidableEq, Inhabited

mutual

/-- A node in the collection at column `indent`, from behind what it follows to the end of its last
line. -/
def nodeLines (indent : Nat) (lead : Lead) : Tree → List Char
  | .null => " null\n".toList
  | .bool b => ' ' :: (toString b).toList ++ ['\n']
  | .integer n => ' ' :: (toString n).toList ++ ['\n']
  | .float x => ' ' :: (Scalar.number.render x).toList ++ ['\n']
  | .string s => ' ' :: Scalar.lines (indent + indentation) s.toList
  | .sequence [] => " []\n".toList
  | .sequence (item :: rest) =>
    match lead with
    | .key => '\n' :: itemLines indent (spaces indent) (item :: rest)
    | .mark => itemLines (indent + indentation) [' '] (item :: rest)
  | .mapping [] => " \x7b\x7d\n".toList
  | .mapping (entry :: rest) =>
    let inner := indent + indentation
    match lead with
    | .key => '\n' :: entryLines inner (spaces inner) (entry :: rest)
    | .mark => entryLines inner [' '] (entry :: rest)

/-- The items of a sequence at column `indent`; `first` comes before the first of them. -/
def itemLines (indent : Nat) (first : List Char) : List Tree → List Char
  | [] => []
  | item :: rest =>
    first ++ '-' :: nodeLines indent .mark item ++ itemLines indent (spaces indent) rest

/-- The entries of a mapping at column `indent`; `first` comes before the first of them. -/
def entryLines (indent : Nat) (first : List Char) : List (String × Tree) → List Char
  | [] => []
  | (key, value) :: rest =>
    let text := key.toList
    let entry :=
      if Scalar.isSimpleKey text then
        Scalar.written indent (Scalar.styleOf text) text ++ ':' :: nodeLines indent .key value
      else
        '?' :: ' ' :: Scalar.lines (indent + indentation) text ++
          spaces indent ++ ':' :: nodeLines indent .mark value
    first ++ entry ++ entryLines indent (spaces indent) rest

end

/-- The document of a tree. -/
def write : Tree → String
  | .sequence (item :: rest) => String.ofList (itemLines 0 [] (item :: rest))
  | .mapping (entry :: rest) => String.ofList (entryLines 0 [] (entry :: rest))
  | tree => String.ofList ((nodeLines 0 .key tree).drop 1)

end CollectorTemplate.Yaml
