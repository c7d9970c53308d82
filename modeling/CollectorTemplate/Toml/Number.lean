/-
Numbers of TOML.

* `Toml.integer?` : the integer that a text writes, in the radix it is marked with;
* `Toml.float?` : the floating-point number that a text writes.

Underscores may stand between digits.  Decimal integers have no leading zeros, and only they have a
sign.
-/
import CollectorTemplate.Decimal.Reading
import CollectorTemplate.Text.Digits

namespace CollectorTemplate.Toml

/-- Whether every underscore in a run of digits has a digit on both sides, and there is a digit. -/
def isGrouped : List Char → Bool
  | [] => false
  | '_' :: _ => false
  | _ :: '_' :: rest => isGrouped rest
  | [_] => true
  | _ :: rest => isGrouped rest

/-- A run of digits without its underscores. -/
def ungrouped? (run : List Char) : Option (List Char) :=
  if isGrouped run then some (run.filter (· ≠ '_')) else none

/-- Whether digits begin with a zero that is not the only digit. -/
def isPadded (digits : List Char) : Bool := digits.head? == some '0' && digits.length != 1

/-- The integer that a whole text writes. -/
def integer? (text : List Char) : Option Int :=
  match Text.radixMark? text with
  | some (radix, run) => (ungrouped? run).bind (Text.radixValue? radix) |>.map Int.ofNat
  | none => do
    let (negative, run) := Decimal.Written.sign text
    let digits ← ungrouped? run
    if isPadded digits then none
    let n ← Text.radixValue? 10 digits
    return if negative then -(n : Int) else n

/-- The characters in runs of digits. -/
def isRun (c : Char) : Bool := c.isDigit || c == '_'

/-- The digits of the fraction, if a point begins it, and what follows them. -/
def fraction? : List Char → Option (List Char × List Char)
  | '.' :: rest => (ungrouped? (rest.takeWhile isRun)).map fun d => (d, rest.dropWhile isRun)
  | rest => some ([], rest)

/-- The exponent of a number, zero if it has none; nothing may follow it. -/
def exponent? : List Char → Option Int
  | [] => some 0
  | e :: rest =>
    if e = 'e' ∨ e = 'E' then do
      let (negative, run) := Decimal.Written.sign rest
      let digits ← ungrouped? run
      if !digits.all Char.isDigit then none
      let n : Int := Decimal.digitsValue digits
      return if negative then -n else n
    else none

/-- The number that a whole text writes with a fraction or an exponent. -/
def decimal? (text : List Char) : Option Decimal.Written := do
  let (negative, rest) := Decimal.Written.sign text
  let whole ← ungrouped? (rest.takeWhile isRun)
  let rest := rest.dropWhile isRun
  if rest.isEmpty ∨ isPadded whole then none
  let (fraction, rest) ← fraction? rest
  let exponent ← exponent? rest
  return ⟨negative, Decimal.digitsValue (whole ++ fraction), exponent - fraction.length⟩

/-- The infinities and what is no number. -/
def special? (text : List Char) : Option Float :=
  let (negative, word) := Decimal.Written.sign text
  if word = "inf".toList then some (if negative then -1.0 / 0.0 else 1.0 / 0.0)
  else if word = "nan".toList then some (0.0 / 0.0)
  else none

/-- The floating-point number that a whole text writes.  A number too large is none. -/
def float? (text : List Char) : Option (Option Float) :=
  match special? text with
  | some x => some (some x)
  | none => (decimal? text).map fun w =>
    let x := w.toFloat
    if x.isFinite then some x else none

end CollectorTemplate.Toml
