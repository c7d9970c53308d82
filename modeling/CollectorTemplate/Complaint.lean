/-
What can be wrong with data of the right form.

A `Complaint` says what typed reading did not like about data: its type, its value, its length, its
name or its key.

* `Complaint.text` : the wording.
-/
import CollectorTemplate.Decimal.Format
import CollectorTemplate.Text.Quoted
import CollectorTemplate.Untyped
import CollectorTemplate.Yaml.Scalar.Number

namespace CollectorTemplate

/-- What was found where something else was expected. -/
inductive Found
  | unit
  | bool (value : Bool)
  | integer (value : Int)
  | float (value : Float)
  | string (value : String)
  | sequence
  | map
  | tagged
  /-- An integer beyond 64 bits, without or with minus sign. -/
  | wide (value : Int)
  deriving Inhabited

namespace Found

/-- Numbers in diagnostics are written without exponents. -/
def number : NumberFormat where
  plainFrom := -400
  plainBelow := 400
  exponentPlus := false
  nan := "NaN"
  infinity := "inf"
  negativeInfinity := "-inf"

/-- The wording of what was found. -/
def text : Found → String
  | unit => "unit value"
  | bool b => "boolean \x60" ++ toString b ++ "\x60"
  | integer n => "integer \x60" ++ toString n ++ "\x60"
  | float x => "floating point \x60" ++ number.render x ++ "\x60"
  | string s => "string " ++ Text.quote s
  | sequence => "sequence"
  | map => "map"
  | tagged => "enum"
  | wide n => "integer \x60" ++ toString n ++ "\x60 as " ++ (if n < 0 then "i128" else "u128")

end Found

/-- What typed reading did not like. -/
inductive Complaint
  | wrongType (found : Found) (expected : String)
  | wrongValue (found : Found) (expected : String)
  | wrongLength (length : Nat) (expected : String)
  | unknownVariant (name : String) (known : List String)
  | duplicateField (name : String)
  | duplicateKey (key : Untyped)
  | tagRefused
  deriving Inhabited

namespace Complaint

/-- The wording of a repeated key. -/
def keyText : Untyped → String
  | .null => "with null key"
  | .bool b => "with key \x60" ++ toString b ++ "\x60"
  | .natural n => "with key " ++ toString n
  | .negative n => "with key " ++ toString n
  | .float x => "with key " ++ Yaml.Scalar.number.render x
  | .string s => "with key " ++ Text.quote s
  | .sequence _ | .mapping _ | .tagged .. => "in YAML map"

/-- The wording of the names that are known. -/
def knownText (known : List String) : String :=
  let quoted := known.map fun name => "\x60" ++ name ++ "\x60"
  match quoted with
  | [] => "there are no variants"
  | [a] => "expected " ++ a
  | [a, b] => "expected " ++ a ++ " or " ++ b
  | _ => "expected one of " ++ ", ".intercalate quoted

def text : Complaint → String
  | wrongType found expected => "invalid type: " ++ found.text ++ ", expected " ++ expected
  | wrongValue found expected => "invalid value: " ++ found.text ++ ", expected " ++ expected
  | wrongLength n expected => "invalid length " ++ toString n ++ ", expected " ++ expected
  | unknownVariant name known => "unknown variant \x60" ++ name ++ "\x60, " ++ knownText known
  | duplicateField name => "duplicate field \x60" ++ name ++ "\x60"
  | duplicateKey key => "duplicate entry " ++ keyText key
  | tagRefused => "untagged and internally tagged enums do not support enum input"

end Complaint

end CollectorTemplate
