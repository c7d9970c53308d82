/-
Numbers in JSON texts.

* `Json.Number.scan?` : the number at the beginning of a text, and what follows it;
* `Json.Number.value?` : its value.

Integers within 64 bits are exact.  All other numbers become floating-point numbers: the first
digits, as many as fit into 64 bits, are scaled by the power of ten, with one rounding for each
step.  A number too large for that has no value.
-/
import CollectorTemplate.Decimal.Reading
import CollectorTemplate.Untyped
import CollectorTemplate.Width

namespace CollectorTemplate.Json

/-- A number as it is written. -/
structure Number where
  negative : Bool
  whole : List Char
  /-- The digits after the point, if there is one. -/
  fraction : Option (List Char)
  /-- The exponent, if there is one. -/
  exponent : Option Int
  deriving Repr, DecidableEq, Inhabited

namespace Number

/-- The digits at the beginning of a text, of which there must be some. -/
def digits? (text : List Char) : Option (List Char × List Char) :=
  let digits := text.takeWhile Char.isDigit
  if digits.isEmpty then none else some (digits, text.dropWhile Char.isDigit)

/-- The fraction at the beginning of a text, if there is one. -/
def fraction? : List Char → Option (Option (List Char) × List Char)
  | '.' :: rest => (digits? rest).map fun (digits, rest) => (some digits, rest)
  | rest => some (none, rest)

/-- The exponent at the beginning of a text, if there is one. -/
def exponent? : List Char → Option (Option Int × List Char)
  | e :: rest =>
    if e = 'e' ∨ e = 'E' then
      let (negative, rest) := Decimal.Written.sign rest
      (digits? rest).map fun (digits, rest) =>
        let n : Int := Decimal.digitsValue digits
        (some (if negative then -n else n), rest)
    else some (none, e :: rest)
  | [] => some (none, [])

/-- The number at the beginning of a text, and what follows it.  No digit follows a leading zero. -/
def scan? (text : List Char) : Option (Number × List Char) := do
  let (negative, rest) :=
    match text with
    | '-' :: rest => (true, rest)
    | rest => (false, rest)
  let (whole, rest) ← digits? rest
  if whole.head? = some '0' ∧ 1 < whole.length then none
  let (fraction, rest) ← fraction? rest
  let (exponent, rest) ← exponent? rest
  return (⟨negative, whole, fraction, exponent⟩, rest)

/-- The value of a digit. -/
def digit (d : Char) : Nat := d.toNat - '0'.toNat

/-- Whether the digits so far can take one more within 64 bits. -/
def fits (significand : Nat) (d : Char) : Bool := Width.unsigned 64 (10 * significand + digit d)

/-- The digits before the point, as far as they fit, and the number of those that do not. -/
def wholePart (digits : List Char) : Nat × Nat :=
  digits.foldl
    (fun (n, dropped) d =>
      if dropped = 0 && fits n d then (10 * n + digit d, 0) else (n, dropped + 1))
    (0, 0)

/-- Takes up the digits after the point, as far as they fit, and counts them. -/
def fractionPart (significand : Nat) : List Char → Nat × Nat
  | [] => (significand, 0)
  | d :: rest =>
    if fits significand d then
      let (n, places) := fractionPart (10 * significand + digit d) rest
      (n, places + 1)
    else (significand, 0)

/-- The power of ten nearest to `10 ^ n`, for `n` up to 308. -/
def power (n : Nat) : Float := Float.ofScientific 1 false n

/-- A size scaled by a power of ten, none if that is too large.  Powers below 10⁻³⁰⁸ are reached in
steps, at most `limit` of them. -/
def scale? : (limit : Nat) → Float → Int → Option Float
  | 0, x, _ => some x
  | limit + 1, x, e =>
    if 0 ≤ e then
      if e ≤ 308 then
        let y := x * power e.toNat
        if y.isInf then none else some y
      else if x == 0 then some x else none
    else if -308 ≤ e then some (x / power e.natAbs)
    else if x == 0 then some x
    else scale? limit (x / power 308) (e + 308)

/-- The value as a floating-point number. -/
def float? (n : Number) : Option Float := do
  let (significand, dropped) := wholePart n.whole
  let (significand, places) := fractionPart significand (n.fraction.getD [])
  let exponent := n.exponent.getD 0
  let size ←
    if !Width.unsigned 31 exponent.natAbs then
      if significand ≠ 0 ∧ 0 < exponent then none else some 0
    else scale? 8 (Float.ofNat significand) ((dropped : Int) - places + exponent)
  return if n.negative then -size else size

def value? (n : Number) : Option Untyped :=
  let size := Decimal.digitsValue n.whole
  if n.fraction.isSome || n.exponent.isSome || !Width.unsigned 64 size then n.float?.map .float
  else if !n.negative then some (.natural size)
  else if 0 < size && Width.signed 64 (-size) then some (.negative (-size))
  else some (.float (-Float.ofNat size))

end Number

end CollectorTemplate.Json
