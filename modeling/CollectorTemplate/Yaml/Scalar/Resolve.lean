/-
What plain scalars mean.

A plain scalar is null, a boolean, an integer, a number or else a string, by its text alone.

* `Scalar.resolve` : the meaning of a plain scalar;
* `Scalar.isLeadingZero` : digits after a leading zero, which are a string and no number;
* `Scalar.forced` : the meaning of a scalar with a tag of the core schema.
-/
import CollectorTemplate.Decimal.Reading
import CollectorTemplate.Text.Digits
import CollectorTemplate.Width

namespace CollectorTemplate.Yaml.Scalar

inductive Meaning
  | null
  | bool (value : Bool)
  | natural (value : Nat)
  /-- An integer written with a minus sign. -/
  | negative (value : Int)
  | float (value : Float)
  | string
  deriving Inhabited

/-- The spellings of null other than the empty text. -/
def isNull (text : List Char) : Bool :=
  ["null", "Null", "NULL", "~"].any (·.toList == text)

def bool? (text : List Char) : Option Bool :=
  if ["true", "True", "TRUE"].any (·.toList == text) then some true
  else if ["false", "False", "FALSE"].any (·.toList == text) then some false
  else none

/-! ### Integers -/

/-- Whether a text is made of digits only, after an optional sign, and begins with a zero that is
not its only digit. -/
def isLeadingZero (text : List Char) : Bool :=
  let digits :=
    match text with
    | '-' :: rest => rest
    | '+' :: rest => rest
    | _ => text
  match digits with
  | '0' :: d :: rest => (d :: rest).all Char.isDigit
  | _ => false

/-- The integer that digits write, in the radix they are marked with. -/
def magnitude? (text : List Char) : Option Nat :=
  match Text.radixMark? text with
  | some (radix, digits) => Text.radixValue? radix digits
  | none => Text.radixValue? 10 text

/-- An integer without minus sign, within so many bits. -/
def natural? (bits : Nat) (text : List Char) : Option Nat :=
  let bare :=
    match text with
    | '+' :: rest => rest
    | _ => text
  if isLeadingZero text then none else (magnitude? bare).filter (Width.unsigned bits)

/-- An integer with minus sign, within so many bits. -/
def negative? (bits : Nat) : List Char → Option Int
  | '-' :: rest =>
    if isLeadingZero ('-' :: rest) then none
    else ((magnitude? rest).map fun n => -(n : Int)).filter (Width.signed bits)
  | _ => none

/-- The integers up to 64 bits, and then up to 128 bits. -/
def integer? (text : List Char) : Option Meaning :=
  ((natural? 64 text).map .natural).or <|
  ((negative? 64 text).map .negative).or <|
  ((natural? 128 text).map .natural).or <|
  (negative? 128 text).map .negative

/-! ### Floating-point numbers -/

/-- Infinities and what is no number. -/
def special? (text : List Char) : Option Float :=
  if [".inf", ".Inf", ".INF", "+.inf", "+.Inf", "+.INF"].any (·.toList == text) then
    some (1.0 / 0.0)
  else if ["-.inf", "-.Inf", "-.INF"].any (·.toList == text) then some (-1.0 / 0.0)
  else if [".nan", ".NaN", ".NAN"].any (·.toList == text) then some (0.0 / 0.0)
  else none

/-- A floating-point number; a decimal must be within the finite range. -/
def float? (text : List Char) : Option Float :=
  (special? text).or ((Decimal.Written.read? text).bind fun w =>
    let x := w.toFloat
    if x.isFinite then some x else none)

/-! ### Meanings -/

/-- The meaning of a plain scalar. -/
def resolve (text : List Char) : Meaning :=
  if text.isEmpty || isNull text then .null
  else
    match bool? text with
    | some b => .bool b
    | none =>
      match integer? text with
      | some m => m
      | none =>
        if isLeadingZero text then .string
        else
          match float? text with
          | some x => .float x
          | none => .string

/-- A kind that a tag of the core schema forces. -/
inductive Kind
  | bool
  | int
  | float
  | null
  deriving Repr, DecidableEq, Inhabited

namespace Kind

def ofTag? (tag : List Char) : Option Kind :=
  if tag = "tag:yaml.org,2002:bool".toList then some .bool
  else if tag = "tag:yaml.org,2002:int".toList then some .int
  else if tag = "tag:yaml.org,2002:float".toList then some .float
  else if tag = "tag:yaml.org,2002:null".toList then some .null
  else none

/-- What a scalar of the kind is called. -/
def name : Kind → String
  | bool => "a boolean"
  | int => "an integer"
  | float => "a float"
  | null => "null"

end Kind

/-- The meaning that a kind forces on a text, none if the text has none of that kind.  An empty text
is no null here. -/
def forced (kind : Kind) (text : List Char) : Option Meaning :=
  match kind with
  | .bool => (bool? text).map .bool
  | .int => integer? text
  | .float => (float? text).map .float
  | .null => if isNull text then some .null else none

end CollectorTemplate.Yaml.Scalar
