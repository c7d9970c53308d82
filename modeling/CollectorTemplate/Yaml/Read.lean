/-
Reading documents as data.

* `Node.untyped` : the data of a node;
* `Document.decode` : reads a whole document: what is wrong behind the root is found after the root
  was read well, and further documents after that;
* `Strictness` : what kinds of readers ask of data: whether tags and repeated keys are accepted.

Collections may be nested 128 deep, and aliases may be followed a hundred times as often as the
document has events.  An alias stands for a node that is no alias, so following one leads to
content.
-/
import CollectorTemplate.Yaml.ReadError
import CollectorTemplate.Yaml.Scalar.Resolve
import CollectorTemplate.Width

namespace CollectorTemplate.Yaml

/-- A step of reading, which counts the aliases that were followed. -/
abbrev Reads (α : Type) := StateT Nat (Except ReadError) α

/-- How deeply collections may be nested. -/
def depthLimit : Nat := 128

/-- What a reader of data asks. -/
structure Strictness where
  /-- What the reader expects, for complaints. -/
  expected : String
  /-- Whether tags are kept. -/
  keepsTags : Bool
  /-- Whether the keys of a mapping must differ. -/
  uniqueKeys : Bool
  deriving Repr, DecidableEq, Inhabited

namespace Strictness

/-- The reader of values in their own right: it keeps tags and refuses repeated keys. -/
def value : Strictness := ⟨"any YAML value", true, true⟩

/-- The reader of data that gets a type later: it refuses tags and keeps repeated keys. -/
def buffer : Strictness := ⟨"any value", false, false⟩

end Strictness

/-- The name in a tag of a program's own, which begins with an exclamation mark.  A lone exclamation
mark is a name itself. -/
def TagText.localName? (tag : TagText) : Option String :=
  if !tag.decodes then none
  else
    match tag.chars with
    | ['!'] => some "!"
    | '!' :: rest => some (String.ofList rest)
    | _ => none

/-- The meaning of a scalar with its tag.  A tag that is neither of the core schema nor a program's
own makes the scalar a string. -/
def scalarMeaning (tag : Option TagText) (style : Style) (text : List Char) :
    Except Complaint Scalar.Meaning :=
  let bare := if style = .plain then Scalar.resolve text else .string
  match tag with
  | none => .ok bare
  | some tag =>
    match Scalar.Kind.ofTag? tag.chars with
    | some kind =>
      match Scalar.forced kind text with
      | some meaning => .ok meaning
      | none => .error (.wrongValue (.string (String.ofList text)) kind.name)
    | none => .ok (if tag.chars.head? = some '!' then bare else .string)

/-- Data of a meaning; integers beyond 64 bits are refused. -/
def meaningData (expected : String) (text : List Char) : Scalar.Meaning → Except Complaint Untyped
  | .null => .ok .null
  | .bool b => .ok (.bool b)
  | .natural n =>
    if Width.unsigned 64 n then .ok (.natural n) else .error (.wrongType (.wide n) expected)
  | .negative n =>
    if Width.signed 64 n then .ok (.negative n) else .error (.wrongType (.wide n) expected)
  | .float x => .ok (.float x)
  | .string => .ok (.string (String.ofList text))

namespace Document

/-- Follows an alias to its node. -/
def follow (d : Document) (number : Nat) : Reads Node := do
  let jumps := (← get) + 1
  set jumps
  if d.size * 100 < jumps then throw .repetitionLimit
  return (d.anchors.lookup number).getD (.broken (.unknownAnchor {}))

/-- The node itself, or the node that an alias stands for, with its path. -/
def target (d : Document) (node : Node) (path : Path) : Reads (Node × Path) :=
  match node with
  | .reference _ number => do return (← d.follow number, .target path)
  | node => return (node, path)

/-- The path of the value under a key. -/
def valuePath (path : Path) (key : Node) : Path :=
  match key with
  | .scalar _ _ _ text => .entry path text
  | _ => .unnamed path

/-- The items of a sequence, each read with its index. -/
def items (read : Path → Node → Reads Untyped) (path : Path) :
    Nat → List Node → Reads (List Untyped)
  | _, [] => return []
  | index, item :: rest => do
    let value ← read (.item path index) item
    return value :: (← items read path (index + 1) rest)

/-- The entries of a mapping at `place`.  Keys are read with the path of the mapping. -/
def entries (s : Strictness) (read : Path → Node → Reads Untyped) (place : Mark) (path : Path) :
    List Untyped → List (Node × Node) → Reads (List (Untyped × Untyped))
  | _, [] => return []
  | seen, (key, value) :: rest => do
    let k ← read path key
    if s.uniqueKeys then
      if let some first := seen.find? fun other => other.sameKey k then
        throw (.complaint (.duplicateKey first) place path)
    let v ← read (valuePath path key) value
    return (k, v) :: (← entries s read place path (seen ++ [k]) rest)

/-- The data of a node, whose collections may be nested `depth` deep.  The content of a tag of a
program's own is read as if it had no tag. -/
def untyped (d : Document) (s : Strictness) : Nat → Path → Node → Reads Untyped
  | depth, path, node => do
    let (node, path) ← d.target node path
    let tag : Option TagText :=
      match node with
      | .scalar _ tag _ _ | .sequence _ tag _ | .mapping _ tag _ => tag
      | _ => none
    let name := tag.bind (·.localName?)
    let content : Reads Untyped :=
      match node with
      | .broken cause => throw (.broken cause)
      | .reference place _ => throw (.broken (.unknownAnchor place))
      | .scalar place tag style text =>
        match (scalarMeaning (if name.isSome then none else tag) style text).bind
            (meaningData s.expected text) with
        | .ok value => return value
        | .error cause => throw (.complaint cause place path)
      | .sequence place _ nodes =>
        match depth with
        | 0 => throw (.recursionLimit place)
        | depth + 1 => return .sequence (← items (untyped d s depth) path 0 nodes)
      | .mapping place _ pairs =>
        match depth with
        | 0 => throw (.recursionLimit place)
        | depth + 1 =>
          return .mapping (← entries s (untyped d s depth) place path [] pairs)
    match name with
    | none => content
    | some name =>
      if s.keepsTags then return .tagged name (← content)
      else throw (.complaint .tagRefused node.place path)

/-- Reads a document, whose root is read by `read`; `missing` is what a text without document
means. -/
def decode {α : Type} (d : Document) (missing : Except ReadError α) (read : Node → Reads α) :
    Except ReadError α := do
  let value ←
    match d.root with
    | none => missing
    | some root => (read root).run' 0
  match d.tail with
  | some cause => throw (.broken cause)
  | none => if d.more then throw .moreDocuments else return value

def data (d : Document) (s : Strictness) : Except ReadError Untyped :=
  d.decode (.ok .null) (d.untyped s depthLimit .root)

end Document

end CollectorTemplate.Yaml
