/-
Records read from documents.

Where a document is read by its fields, any scalar will do for a text, whatever it means and
whatever its tag is.  Fields that are not known are skipped without a look at what they hold.

* `Document.text`, `Document.optionalText` : the text of a scalar;
* `Document.record` : a record, read field by field;
* `Document.loose` : a record whose fields get their types later.
-/
import CollectorTemplate.Untyped.Record
import CollectorTemplate.Yaml.Read

namespace CollectorTemplate.Yaml.Document

/-- The text of a scalar. -/
def text (d : Document) (expected : String) (path : Path) (node : Node) : Reads (List Char) := do
  let (node, path) ← d.target node path
  match node with
  | .broken cause => throw (.broken cause)
  | .reference place _ => throw (.broken (.unknownAnchor place))
  | .scalar _ _ _ text => return text
  | .sequence place _ _ => throw (.complaint (.wrongType .sequence expected) place path)
  | .mapping place _ _ => throw (.complaint (.wrongType .map expected) place path)

/-- A text. -/
def string (d : Document) (path : Path) (node : Node) : Reads String :=
  return String.ofList (← d.text "a string" path node)

/-- Whether a node stands for nothing: a plain scalar that is empty or null.  A tag makes it
something, except for the tag of null, under which nothing else may stand. -/
def isNothing : Node → Except Complaint Bool
  | .scalar _ tag .plain text =>
    match tag with
    | none => .ok (text.isEmpty || Scalar.isNull text)
    | some tag =>
      if Scalar.Kind.ofTag? tag.chars = some .null then
        if Scalar.isNull text then .ok true
        else .error (.wrongValue (.string (String.ofList text)) Scalar.Kind.null.name)
      else .ok false
  | _ => .ok false

/-- A text that may be missing. -/
def optionalText (d : Document) (path : Path) (node : Node) :
    ExceptT Complaint Reads (Option String) := do
  let (node, path) ← (d.target node path : Reads _)
  if ← (ExceptT.mk (pure (isNothing node))) then return none
  let text ← (d.string path node : Reads _)
  return some text

/-- The entries of the record of a given name, with its place and its path.  An empty plain scalar
is a record without entries. -/
def recordEntries (d : Document) (name : String) (depth : Nat) (path : Path) (node : Node) :
    Reads (Mark × Path × List (Node × Node)) := do
  let (node, path) ← d.target node path
  let expected := "struct " ++ name
  match node with
  | .broken cause => throw (.broken cause)
  | .reference place _ => throw (.broken (.unknownAnchor place))
  | .mapping place _ entries =>
    if depth = 0 then throw (.recursionLimit place)
    return (place, path, entries)
  | .sequence place _ _ => throw (.complaint (.wrongType .sequence expected) place path)
  | .scalar place tag style text =>
    if style = .plain ∧ text = [] then return (place, path, [])
    match (scalarMeaning tag style text).bind (meaningData expected text) with
    | .error cause => throw (.complaint cause place path)
    | .ok value => throw (.complaint (value.unexpected expected) place path)

/-- What comes of work on the record with this place and path, which takes complaints about
itself. -/
def blame {α : Type} (place : Mark) (path : Path) (work : ExceptT Complaint Reads α) : Reads α := do
  match ← work.run with
  | .ok value => return value
  | .error cause => throw (.complaint cause place path)

/-- Reads the entries of a record into it.  `seen` are the fields that were read before. -/
def fillRecord {α : Type} (d : Document) (fields : List String)
    (read : α → String → Path → Node → ExceptT Complaint Reads α) (place : Mark) (path : Path) :
    (seen : List String) → α → List (Node × Node) → Reads α
  | _, record, [] => return record
  | seen, record, (key, value) :: rest => do
    let name := String.ofList (← d.text "field identifier" path key)
    if fields.contains name then
      if seen.contains name then throw (.complaint (.duplicateField name) place path)
      let record ← blame place path (read record name (valuePath path key) value)
      fillRecord d fields read place path (name :: seen) record rest
    else
      if let some cause := value.breakage? then throw (.broken cause)
      fillRecord d fields read place path seen record rest

/-- The record of a given name.  `read` takes up one field into the record, which is `blank` at
first. -/
def record {α : Type} (d : Document) (name : String) (fields : List String) (blank : α)
    (read : α → String → Path → Node → ExceptT Complaint Reads α) (depth : Nat) (path : Path)
    (node : Node) : Reads α := do
  let (place, path, entries) ← d.recordEntries name depth path node
  d.fillRecord fields read place path [] blank entries

/-- The entries of a record as data. -/
def looseEntries (d : Document) (depth : Nat) (path : Path) :
    List (Node × Node) → Reads (List (Untyped × Untyped))
  | [] => return []
  | (key, value) :: rest => do
    let name ← d.text "field identifier" path key
    let data ← d.untyped .buffer depth (valuePath path key) value
    return (.string (String.ofList name), data) :: (← looseEntries d depth path rest)

/-- The record of a given name, all entries of which are read as data before `read` gives them
types. -/
def loose {α : Type} (d : Document) (name : String) (read : Untyped → Except Complaint α)
    (depth : Nat) (path : Path) (node : Node) : Reads α := do
  let (place, path, entries) ← d.recordEntries name depth path node
  let data ← d.looseEntries (depth - 1) path entries
  blame place path (ExceptT.mk (pure (read (.mapping data))))

end CollectorTemplate.Yaml.Document
