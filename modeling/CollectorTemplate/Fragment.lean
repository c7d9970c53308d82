/-
Exporter fragments.

A fragment is the text of one exporter's configuration.  Any single document is accepted, a lone
scalar too; a document with nothing in it is an empty mapping.

* `Fragment.isBlank` : whether a text holds nothing but white space, comments, markers and
  directives;
* `Fragment.convert` : the tree of data as it was read;
* `Fragment.parse` : the tree of a fragment;
* `SyntaxError` : why a fragment has none.
-/
import CollectorTemplate.Text.Blank
import CollectorTemplate.Tree
import CollectorTemplate.Yaml.Read
import CollectorTemplate.Width

namespace CollectorTemplate

/-- A place in a fragment, counted from one. -/
structure Location where
  line : Nat
  column : Nat
  deriving Repr, DecidableEq, Inhabited

namespace Location

def ofMark (m : Yaml.Mark) : Location := ⟨m.line + 1, m.column + 1⟩

def text (l : Location) : String := s!"line {l.line} column {l.column}"

end Location

/-- Why a fragment cannot be parsed. -/
structure SyntaxError where
  detail : String
  /-- Where the fault is, if that is known. -/
  location : Option Location := none
  deriving Repr, DecidableEq, Inhabited

namespace SyntaxError

def text (e : SyntaxError) : String := "invalid YAML: " ++ e.detail

/-- The syntax error of a text that cannot be read. -/
def ofReadError (e : Yaml.ReadError) : SyntaxError := ⟨e.text, e.place.map Location.ofMark⟩

end SyntaxError

namespace Fragment

/-! ### Blank documents -/

/-- A line without its comment, which begins with a number sign at the beginning of the line or
after white space.  `space` says whether white space, or nothing, comes before. -/
def stripComment : (space : Bool) → List Char → List Char
  | _, [] => []
  | space, c :: rest =>
    if space ∧ c = '#' then [] else c :: stripComment (Text.isAsciiSpace c) rest

/-- What a line without content is. -/
inductive BlankLine
  /-- Nothing, or the marker that ends a document. -/
  | nothing
  /-- The marker that begins a document. -/
  | start
  | directive
  deriving Repr, DecidableEq, Inhabited

/-- The kind of a line without content, none if the line has content. -/
def blankLine? (line : List Char) : Option BlankLine :=
  let bare := Text.trim (stripComment true line)
  if bare = [] ∨ bare = ['.', '.', '.'] then some .nothing
  else if bare = ['-', '-', '-'] then some .start
  else if bare.head? = some '%' then some .directive
  else none

/-- Whether lines are blank; `dangling` says that a directive still waits for a document to
begin. -/
def blankLines : (dangling : Bool) → List (List Char) → Bool
  | dangling, [] => !dangling
  | dangling, line :: rest =>
    match blankLine? line with
    | none => false
    | some .nothing => blankLines dangling rest
    | some .start => blankLines false rest
    | some .directive => blankLines true rest

/-- Whether a text holds no content at all.  A directive with no document after it does not count as
nothing. -/
def isBlank (raw : String) : Bool := blankLines false (Text.lines raw.toList)

/-! ### Trees -/

/-- Why data has no tree. -/
inductive ConversionError
  | collectionKey
  | duplicateKey (key : String)
  deriving Repr, DecidableEq, Inhabited

namespace ConversionError

def text : ConversionError → String
  | collectionKey => "non-scalar mapping key is not supported"
  | duplicateKey key => "duplicate mapping key '" ++ key ++ "'"

end ConversionError

/-- The text of a key; collections have none. -/
def keyText : Untyped → Option String
  | .null => some "null"
  | .bool b => some (toString b)
  | .natural n => some (toString n)
  | .negative n => some (toString n)
  | .float x => some (Yaml.Scalar.number.render x)
  | .string s => some s
  | .tagged _ value => keyText value
  | .sequence _ | .mapping _ => none

/-- The tree of an integer: one beyond 64 bits with sign becomes a floating-point number. -/
def integerTree (n : Int) : Tree :=
  if Width.signed 64 n then .integer n else .float (Float.ofInt n)

mutual

/-- The tree of data: tags are dropped, keys become texts and must differ. -/
def convert : Untyped → Except ConversionError Tree
  | .null => .ok .null
  | .bool b => .ok (.bool b)
  | .natural n => .ok (integerTree n)
  | .negative n => .ok (integerTree n)
  | .float x => .ok (.float x)
  | .string s => .ok (.string s)
  | .sequence items => do return .sequence (← convertItems items)
  | .mapping entries => do return .mapping (← convertEntries [] entries)
  | .tagged _ value => convert value

/-- The trees of the items of a sequence. -/
def convertItems : List Untyped → Except ConversionError (List Tree)
  | [] => .ok []
  | item :: rest => do
    let tree ← convert item
    return tree :: (← convertItems rest)

/-- The entries of a mapping, with those found so far. -/
def convertEntries (found : List (String × Tree)) :
    List (Untyped × Untyped) → Except ConversionError (List (String × Tree))
  | [] => .ok found
  | (key, value) :: rest =>
    match keyText key with
    | none => .error .collectionKey
    | some k =>
      if Entries.contains k found then .error (.duplicateKey k)
      else do
        let tree ← convert value
        convertEntries (Entries.insert k tree found) rest

end

/-- The data of a fragment as it was read. -/
def read (raw : String) : Except Yaml.ReadError Untyped :=
  (Yaml.Document.ofString raw).data .value

def parse (raw : String) : Except SyntaxError Tree :=
  if isBlank raw then .ok .empty
  else
    match read raw with
    | .error e => .error (.ofReadError e)
    | .ok data =>
      match convert data with
      | .error e => .error ⟨e.text, none⟩
      | .ok tree => .ok tree

end Fragment

end CollectorTemplate
