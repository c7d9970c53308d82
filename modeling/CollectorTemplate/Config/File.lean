/-
The configuration file.

The file is TOML with two tables: `defaults` with the values to fall back to, and `logging` with the
settings of the log.  What else it holds is not looked at, except that its numbers must be within
range.

* `Settings.read?` : the configuration that a text writes;
* `Settings.read` : the same, or the error of a text that writes none.
-/
import CollectorTemplate.Config.Settings
import CollectorTemplate.Error
import CollectorTemplate.Toml.Read
import CollectorTemplate.Width

namespace CollectorTemplate

open Toml (Value Table)

/-! ### Typing -/

namespace Toml

mutual

/-- Whether all numbers in a value are within range: the integers within 128 bits, with a sign or
without, and the others within the range of floating-point numbers. -/
def Value.isInRange : Value → Bool
  | .integer n => Width.signed 128 n || (0 ≤ n && Width.unsigned 128 n.toNat)
  | .float x => x.isSome
  | .array items => areInRange items
  | .table _ entries => entriesInRange entries
  | .tables latest earlier => entriesInRange latest && rowsInRange earlier
  | _ => true

@[inherit_doc Value.isInRange]
def areInRange : List Value → Bool
  | [] => true
  | item :: items => item.isInRange && areInRange items

@[inherit_doc Value.isInRange]
def entriesInRange : List (String × Value) → Bool
  | [] => true
  | (_, value) :: entries => value.isInRange && entriesInRange entries

@[inherit_doc Value.isInRange]
def rowsInRange : List (List (String × Value)) → Bool
  | [] => true
  | entries :: rows => entriesInRange entries && rowsInRange rows

end

def Value.text? : Value → Option String
  | .string text => some text
  | _ => none

/-- The integer within 64 bits in a value. -/
def Value.int64? : Value → Option Int
  | .integer n => if Width.signed 64 n then some n else none
  | _ => none

/-- The record in a value.  A table gives the fields by name, and an array all of them in order;
what it holds beyond them does not count.  A moment has no fields. -/
def Value.record? {α : Type} (fields : List String) (start : α)
    (set? : α → String → Value → Option α) : Value → Option α
  | .table _ entries => entries.foldlM (fun record entry => set? record entry.1 entry.2) start
  | .array items =>
    if items.length < fields.length then none
    else (fields.zip items).foldlM (fun record entry => set? record entry.1 entry.2) start
  | .moment _ => some start
  | _ => none

end Toml

/-! ### The configuration -/

/-- Sets one of the values to fall back to. -/
def Defaults.set? (d : Defaults) (field : String) (value : Value) : Option Defaults :=
  match field with
  | "replicas" => value.int64?.map fun n => { d with replicas := n }
  | "storage_size" => value.text?.map fun s => { d with storageSize := s }
  | "storage_retention" => value.text?.map fun s => { d with storageRetention := s }
  | "cpu_limit" => value.text?.map fun s => { d with cpuLimit := s }
  | "memory_limit" => value.text?.map fun s => { d with memoryLimit := s }
  | "cpu_request" => value.text?.map fun s => { d with cpuRequest := s }
  | "memory_request" => value.text?.map fun s => { d with memoryRequest := s }
  | "traces_backend" => value.text?.map fun s => { d with tracesBackend := s }
  | "traces_retention" => value.text?.map fun s => { d with tracesRetention := s }
  | "sample_ratio" => value.text?.map fun s => { d with sampleRatio := s }
  | _ => if value.isInRange then some d else none

/-- The values to fall back to, as a table gives them. -/
def Defaults.ofValue? : Value → Option Defaults :=
  Value.record?
    ["replicas", "storage_size", "storage_retention", "cpu_limit", "memory_limit", "cpu_request",
      "memory_request", "traces_backend", "traces_retention", "sample_ratio"]
    {} Defaults.set?

/-- Sets one of the settings of the log. -/
def LogSettings.set? (l : LogSettings) (field : String) (value : Value) : Option LogSettings :=
  match field with
  | "format" => value.text?.map fun s => { l with format := some s }
  | "filter" => value.text?.map fun s => { l with filter := some s }
  | "file" => value.text?.map fun s => { l with file := some s }
  | _ => if value.isInRange then some l else none

/-- The settings of the log, as a table gives them. -/
def LogSettings.ofValue? : Value → Option LogSettings :=
  Value.record? ["format", "filter", "file"] {} LogSettings.set?

namespace Settings

/-- Sets one of the parts of the configuration. -/
def set? (s : Settings) (field : String) (value : Value) : Option Settings :=
  match field with
  | "defaults" => (Defaults.ofValue? value).map fun d => { s with defaults := d }
  | "logging" => (LogSettings.ofValue? value).map fun l => { s with logging := l }
  | _ => if value.isInRange then some s else none

def ofTable? (entries : Table) : Option Settings :=
  entries.foldlM (fun settings entry => settings.set? entry.1 entry.2) {}

/-- The configuration that a text writes. -/
def read? (text : String) : Option Settings := (Toml.read? text).bind ofTable?

/-- Why a text writes no configuration, in short. -/
def plainCause (text : String) : String :=
  match Toml.read? text with
  | none => "the text is no TOML"
  | some _ => "an entry is not of the type it must have"

/-- The configuration that a text writes.  `cause` tells why a text writes none. -/
def read (text : String) (cause : String → String := plainCause) : Except Error Settings :=
  match read? text with
  | none => .error (.operationFailed "parse_config_file" (cause text))
  | some settings => .ok settings

/-- However errors are told, the same texts write configurations. -/
theorem read_eq_ok_iff {text : String} {cause : String → String} {settings : Settings} :
    read text cause = .ok settings ↔ read? text = some settings := by
  rw [read]
  cases read? text with
  | none => simp
  | some found => simp

end Settings

end CollectorTemplate
