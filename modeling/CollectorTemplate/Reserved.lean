/-
Names that exporters may not have.

The monitoring service has an exporter of its own in every collector configuration.  A custom
exporter of the same name would replace it, so such names are refused.

* `ReservedNames.contains` : whether a name is reserved, as it is written;
* `ReservedNames.system` : the names that the service keeps for itself.
-/

namespace CollectorTemplate

/-- A set of reserved names, in the order in which they are listed. -/
structure ReservedNames where
  names : List String
  deriving Repr, DecidableEq

namespace ReservedNames

/-- The names of the monitoring service's own exporters. -/
def system : ReservedNames := ⟨["prometheus"]⟩

instance : Inhabited ReservedNames := ⟨system⟩

/-- Whether a name is reserved. -/
def contains (reserved : ReservedNames) (name : String) : Bool := reserved.names.contains name

theorem contains_iff {reserved : ReservedNames} {name : String} :
    reserved.contains name ↔ name ∈ reserved.names := by
  simp [contains]

end ReservedNames

end CollectorTemplate
