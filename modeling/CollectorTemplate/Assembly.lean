/-
Custom exporters for the collector template.

The entries of a map from names to fragments are assembled into two views: the names with their
trees, and the names alone.  Assembly is all or nothing, and names are checked before any fragment
is parsed.

* `assemble` : both views, or the first failure in the order of the entries;
* `diagnose` : all failures, in the order of names.
-/
import CollectorTemplate.Emission
import CollectorTemplate.Entries

namespace CollectorTemplate

/-- The fragments of exporters by name, in the order in which a map without order gives its
entries. -/
abbrev Sources := List (String × String)

/-- Exporters that were assembled. -/
structure Assembly where
  /-- The trees of the exporters by name. -/
  exporters : List (String × Tree) := []
  /-- The names of the exporters. -/
  names : List String := []
  deriving Inhabited

namespace Assembly

/-- The assembly with one more exporter in front. -/
def add (name : String) (tree : Tree) (assembly : Assembly) : Assembly :=
  ⟨(name, tree) :: assembly.exporters, name :: assembly.names⟩

/-- The number of exporters. -/
def size (assembly : Assembly) : Nat := assembly.exporters.length

/-- The tree of an exporter. -/
def get? (assembly : Assembly) (name : String) : Option Tree :=
  Entries.find? name assembly.exporters

end Assembly

/-- Tags work with the reconciliation that it belongs to, if it belongs to one. -/
def tagWork : Option String → Traced Unit
  | none => pure ()
  | some id => .emit (.tagged id)

/-- Parses fragments up to the first that is malformed. -/
def parseAll : Sources → Traced (Except Error Assembly)
  | [] => pure (.ok {})
  | (name, raw) :: rest =>
    match Fragment.parse raw with
    | .error cause => do
      .emit (.counted .invalidYaml)
      .emit (.event (.rejectedMalformed name cause))
      return .error (.invalidYaml name cause)
    | .ok tree => do return (← parseAll rest).map (.add name tree)

/-- Assembles exporters.  `ambient` is the reconciliation that the work belongs to. -/
def assemble (reserved : ReservedNames) (ambient : Option String) (sources : Sources) :
    Traced (Except Error Assembly) := do
  .emit (.opened (.assemble sources.length))
  tagWork ambient
  match sources.find? fun source => reserved.contains source.1 with
  | some (name, _) =>
    .emit (.counted .reservedName)
    .emit (.event (.rejectedReserved name))
    return .error (.reservedName name)
  | none =>
    match ← parseAll sources with
    | .error e => return .error e
    | .ok assembly =>
      .emit (.counted .success)
      .emit (.event (.assembled assembly.names.length))
      return .ok assembly

/-- What is wrong with one exporter.  The fragment of a reserved name is not looked at. -/
def problem? (reserved : ReservedNames) (source : String × String) : Option Error :=
  match reserved.check source.1 with
  | .error e => some e
  | .ok _ =>
    match Fragment.parse source.2 with
    | .error cause => some (.invalidYaml source.1 cause)
    | .ok _ => none

/-- All that is wrong with exporters, in the order of their names. -/
def diagnose (reserved : ReservedNames) (ambient : Option String) (sources : Sources) :
    Traced (List Error) := do
  .emit (.opened (.diagnose sources.length))
  tagWork ambient
  return (sources.mergeSort fun a b => a.1 ≤ b.1).filterMap (problem? reserved)

end CollectorTemplate
