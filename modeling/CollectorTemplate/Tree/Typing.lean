/-
Untyped data as configuration trees.

Data that was written as a tree is a tree again: each kind of data is tried in turn, and the first
that fits is taken.

* `Tree.ofUntyped?` : the tree of data, none if tags or keys other than strings stand in it.

Integers beyond 64 bits with sign become floating-point numbers.  Of repeated keys the last counts.
-/
import CollectorTemplate.Tree
import CollectorTemplate.Untyped
import CollectorTemplate.Width

namespace CollectorTemplate

/-- An integer of 64 bits with sign. -/
def Untyped.int64? (data : Untyped) : Option Int :=
  data.int?.filter (Width.signed 64)

namespace Tree

mutual

/-- The tree of data. -/
def ofUntyped? : Untyped → Option Tree
  | .null => some .null
  | .bool b => some (.bool b)
  | .natural n => some (if Width.signed 64 n then .integer n else .float (Float.ofNat n))
  | .negative n => some (if Width.signed 64 n then .integer n else .float (Float.ofInt n))
  | .float x => some (.float x)
  | .string s => some (.string s)
  | .sequence items => (ofItems? items).map .sequence
  | .mapping entries => (ofEntries? [] entries).map .mapping
  | .tagged .. => none

def ofItems? : List Untyped → Option (List Tree)
  | [] => some []
  | item :: rest => do
    let tree ← ofUntyped? item
    return tree :: (← ofItems? rest)

/-- The entries of a mapping, with those found so far. -/
def ofEntries? (found : List (String × Tree)) :
    List (Untyped × Untyped) → Option (List (String × Tree))
  | [] => some found
  | (.string key, value) :: rest => do
    let tree ← ofUntyped? value
    ofEntries? (Entries.insert key tree found) rest
  | _ => none

end

end Tree

end CollectorTemplate
