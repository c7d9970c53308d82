/-
What a key of the collector template may have.

* `TemplateValue` : the values;
* `TemplateValue.tree` : a value as data, exporters in the order of their names;
* `TemplateValue.ofUntyped?` : the value of data, the first kind that fits.
-/
import CollectorTemplate.Tree.Typing

namespace CollectorTemplate

/-- The value of a template key. -/
inductive TemplateValue
  | bool (value : Bool)
  /-- An integer of 64 bits with sign. -/
  | integer (value : Int)
  | string (value : String)
  | list (names : List String)
  /-- Exporters by name, in no particular order. -/
  | exporters (trees : List (String × Tree))
  deriving Inhabited

namespace TemplateValue

def bool? : TemplateValue → Option Bool
  | bool b => some b
  | _ => none

def integer? : TemplateValue → Option Int
  | integer n => some n
  | _ => none

/-- The text of a string. -/
def string? : TemplateValue → Option String
  | string s => some s
  | _ => none

/-- The names of a list. -/
def list? : TemplateValue → Option (List String)
  | list names => some names
  | _ => none

def exporters? : TemplateValue → Option (List (String × Tree))
  | exporters trees => some trees
  | _ => none

/-- A value as data. -/
def tree : TemplateValue → Tree
  | bool b => .bool b
  | integer n => .integer n
  | string s => .string s
  | list names => .sequence (names.map .string)
  | exporters trees => .ofEntries trees

/-- The texts of data, all of which must be strings. -/
def strings? (items : List Untyped) : Option (List String) :=
  items.mapM fun
    | .string s => some s
    | _ => none

def ofUntyped? (data : Untyped) : Option TemplateValue :=
  match data with
  | .bool b => some (.bool b)
  | .natural _ | .negative _ => data.int64?.map .integer
  | .string s => some (.string s)
  | .sequence items => (strings? items).map .list
  | .mapping entries => (Tree.ofEntries? [] entries).map .exporters
  | .null | .float _ | .tagged .. => none

end TemplateValue

end CollectorTemplate
