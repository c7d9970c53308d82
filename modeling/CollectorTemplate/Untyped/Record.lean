/-
Records in untyped data.

A record is written as a mapping from the names of its fields, or from their numbers, or as a
sequence of its fields.  Fields that are not known are skipped, and those that are not written stay
as they are.

* `Untyped.string`, `Untyped.int32`, `Untyped.table` : data of simple types;
* `Untyped.optional` : data that may be null;
* `Untyped.record` : a record, read field by field.
-/
import CollectorTemplate.Complaint
import CollectorTemplate.Entries
import CollectorTemplate.Width

namespace CollectorTemplate.Untyped

/-- What data is called where something else was expected. -/
def found : Untyped → Found
  | .null => .unit
  | .bool b => .bool b
  | .natural n => .integer n
  | .negative n => .integer n
  | .float x => .float x
  | .string s => .string s
  | .sequence _ => .sequence
  | .mapping _ => .map
  | .tagged .. => .tagged

def unexpected (data : Untyped) (expected : String) : Complaint := .wrongType data.found expected

def text (data : Untyped) : Except Complaint String :=
  match data with
  | .string s => .ok s
  | _ => .error (data.unexpected "a string")

/-- An integer of 32 bits with sign. -/
def int32 (data : Untyped) : Except Complaint Int :=
  match data.int? with
  | some n =>
    if Width.signed 32 n then .ok n else .error (.wrongValue data.found "i32")
  | none => .error (data.unexpected "i32")

/-- Data that may be null. -/
def optional {α : Type} (read : Untyped → Except Complaint α) :
    Untyped → Except Complaint (Option α)
  | .null => .ok none
  | data => (read data).map some

/-- A table of texts; of several entries with one key the last counts. -/
def table (data : Untyped) : Except Complaint (List (String × String)) :=
  match data with
  | .mapping entries =>
    entries.foldlM (fun read entry => do
      let key ← entry.1.text
      let value ← entry.2.text
      return Entries.insert key value read) []
  | _ => .error (data.unexpected "a map")

/-! ### Records -/

/-- The field that a key names, none if no field has the name or number. -/
def fieldOf (fields : List String) (key : Untyped) : Except Complaint (Option String) :=
  match key with
  | .string s => .ok (fields.find? (· == s))
  | .natural n => .ok fields[n]?
  | _ => .error (key.unexpected "field identifier")

/-- Reads the entries of a record into it.  `seen` are the fields that were read before. -/
def recordEntries {α : Type} (fields : List String)
    (read : α → String → Untyped → Except Complaint α) :
    (seen : List String) → α → List (Untyped × Untyped) → Except Complaint α
  | _, record, [] => .ok record
  | seen, record, (key, value) :: rest => do
    match ← fieldOf fields key with
    | none => recordEntries fields read seen record rest
    | some field =>
      if seen.contains field then throw (.duplicateField field)
      recordEntries fields read (field :: seen) (← read record field value) rest

/-- Reads the items of a record into it, one for each field. -/
def recordItems {α : Type} (fields : List String)
    (read : α → String → Untyped → Except Complaint α) (record : α) (items : List Untyped) :
    Except Complaint α := do
  let record ← (fields.zip items).foldlM (fun record item => read record item.1 item.2) record
  if fields.length < items.length then
    throw (.wrongLength items.length s!"{fields.length} elements in sequence")
  return record

/-- A record of a given name.  `read` takes up one field into the record, which is `blank` at
first. -/
def record {α : Type} (name : String) (fields : List String) (blank : α)
    (read : α → String → Untyped → Except Complaint α) (data : Untyped) : Except Complaint α :=
  match data with
  | .mapping entries => recordEntries fields read [] blank entries
  | .sequence items => recordItems fields read blank items
  | _ => .error (data.unexpected ("struct " ++ name))

end CollectorTemplate.Untyped
