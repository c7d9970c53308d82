/-
Configuration trees.

Exporter fragments may hold any data.  Each is brought into one closed form, a `Tree`, in which keys
are texts and tags are gone.

* `Tree` : the data; the entries of a mapping that was read are in the order of their keys;
* `Tree.kind`, `Tree.get?`, … : looking at a tree;
* `Tree.equal` : equality of data, where no number that is none equals any.
-/
import CollectorTemplate.Entries

namespace CollectorTemplate

/-- A configuration tree. -/
inductive Tree
  | null
  | bool (value : Bool)
  /-- An integer of 64 bits with sign. -/
  | integer (value : Int)
  | float (value : Float)
  | string (value : String)
  | sequence (items : List Tree)
  /-- A mapping.  The keys of one that was read strictly increase. -/
  | mapping (entries : List (String × Tree))
  deriving Inhabited

namespace Tree

/-- The mapping without entries. -/
def empty : Tree := mapping []

/-- The mapping of entries in any order; of several with one key the last counts. -/
def ofEntries (entries : List (String × Tree)) : Tree := mapping (Entries.ofList entries)

/-- The name of the kind of data. -/
def kind : Tree → String
  | null => "null"
  | bool _ => "bool"
  | integer _ => "integer"
  | float _ => "float"
  | string _ => "string"
  | sequence _ => "sequence"
  | mapping _ => "mapping"

/-- Whether the tree is null. -/
def isNull : Tree → Bool
  | null => true
  | _ => false

/-- The text of a string. -/
def string? : Tree → Option String
  | string s => some s
  | _ => none

/-- The value of a boolean. -/
def bool? : Tree → Option Bool
  | bool b => some b
  | _ => none

/-- The value of an integer. -/
def integer? : Tree → Option Int
  | integer n => some n
  | _ => none

/-- The value of a number, an integer as the nearest floating-point number. -/
def float? : Tree → Option Float
  | integer n => some (Float.ofInt n)
  | float x => some x
  | _ => none

/-- The items of a sequence. -/
def sequence? : Tree → Option (List Tree)
  | sequence items => some items
  | _ => none

/-- The entries of a mapping. -/
def mapping? : Tree → Option (List (String × Tree))
  | mapping entries => some entries
  | _ => none

/-- What a mapping has at a key. -/
def get? (tree : Tree) (key : String) : Option Tree :=
  tree.mapping?.bind (Entries.find? key)

mutual

/-- Whether two trees hold equal data.  Floating-point numbers are compared as numbers, so one that
is no number differs from itself, and integers differ from them. -/
def equal : Tree → Tree → Bool
  | null, null => true
  | bool a, bool b => a == b
  | integer a, integer b => a == b
  | float a, float b => a == b
  | string a, string b => a == b
  | sequence a, sequence b => equalItems a b
  | mapping a, mapping b => equalEntries a b
  | _, _ => false

/-- Whether two sequences are equal, item by item. -/
def equalItems : List Tree → List Tree → Bool
  | [], [] => true
  | a :: as, b :: bs => equal a b && equalItems as bs
  | _, _ => false

/-- Whether two mappings are equal, entry by entry. -/
def equalEntries : List (String × Tree) → List (String × Tree) → Bool
  | [], [] => true
  | (k, a) :: as, (l, b) :: bs => k == l && equal a b && equalEntries as bs
  | _, _ => false

end

end Tree

end CollectorTemplate
