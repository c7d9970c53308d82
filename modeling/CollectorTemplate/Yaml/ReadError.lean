/-
Why a text cannot be read.

A text may have a fault in its form, go beyond a limit, hold more than one document, or hold data
that typed reading does not accept.  In the last case the diagnostic names the path to the data.

* `Path` : the way from the root of a document to a node;
* `ReadError` : the causes;
* `ReadError.place`, `ReadError.text` : where, and the whole diagnostic.
-/
import CollectorTemplate.Complaint
import CollectorTemplate.Yaml.Node

namespace CollectorTemplate.Yaml

/-- The way from the root of a document to a node. -/
inductive Path
  | root
  | item (parent : Path) (index : Nat)
  | entry (parent : Path) (key : List Char)
  /-- The node that an alias stands for. -/
  | target (parent : Path)
  /-- A value under a key that is no scalar. -/
  | unnamed (parent : Path)
  deriving Repr, DecidableEq, Inhabited

namespace Path

def text : Path → String
  | root => "."
  | item parent index => parent.text ++ "[" ++ toString index ++ "]"
  | entry root key => String.ofList key
  | entry parent key => parent.text ++ "." ++ String.ofList key
  | target parent => parent.text
  | unnamed root => "?"
  | unnamed parent => parent.text ++ ".?"

end Path

/-- Why a text cannot be read. -/
inductive ReadError
  | broken (cause : Breakage)
  | recursionLimit (place : Mark)
  | repetitionLimit
  | moreDocuments
  /-- A complaint about the node with this place and path. -/
  | complaint (cause : Complaint) (place : Mark) (path : Path)
  deriving Inhabited

namespace ReadError

/-- Where the reading failed, if a place is known. -/
def place : ReadError → Option Mark
  | broken (.fault f) => some f.place
  | broken (.unknownAnchor m) => some m
  | recursionLimit m => some m
  | complaint _ m _ => some m
  | repetitionLimit | moreDocuments => none

/-- A message about a place, which is left out if it is the beginning of the text. -/
def placed (message : String) (m : Mark) : String :=
  if m.isStart then message else message ++ " at " ++ m.text

def text : ReadError → String
  | broken (.fault f) => f.text
  | broken (.unknownAnchor m) => placed "unknown anchor" m
  | recursionLimit m => placed "recursion limit exceeded" m
  | repetitionLimit => "repetition limit exceeded"
  | moreDocuments =>
    "deserializing from YAML containing more than one document is not supported"
  | complaint cause m path =>
    let prefixed := if path.text = "." then cause.text else path.text ++ ": " ++ cause.text
    placed prefixed m

end ReadError

end CollectorTemplate.Yaml
