/-
Numbers in texts.

* `Decimal.Written` : a number as it is written, of any length;
* `Decimal.Written.read?` : the grammar: a sign, digits with a point among them, and an exponent;
* `Decimal.Written.toFloat` : the nearest floating-point number.

A number so large or so small that it can only become infinity or zero is not computed.
-/

namespace CollectorTemplate.Decimal

/-- The number `± digits · 10 ^ exponent` as it is written. -/
structure Written where
  negative : Bool
  digits : Nat
  exponent : Int
  deriving Repr, DecidableEq, Inhabited

def digitsValue (digits : List Char) : Nat :=
  digits.foldl (fun n d => 10 * n + (d.toNat - '0'.toNat)) 0

namespace Written

/-- A sign, if there is one, and what follows it. -/
def sign : List Char → Bool × List Char
  | '-' :: rest => (true, rest)
  | '+' :: rest => (false, rest)
  | rest => (false, rest)

/-- The exponent after the mantissa, zero if there is none.  Nothing else may follow. -/
def exponent? : List Char → Option Int
  | [] => some 0
  | e :: rest =>
    if e = 'e' ∨ e = 'E' then
      let (negative, digits) := sign rest
      if digits.isEmpty ∨ !digits.all Char.isDigit then none
      else some (if negative then -(digitsValue digits) else digitsValue digits)
    else none

/-- The number that a whole text writes: digits are needed before or after the point. -/
def read? (text : List Char) : Option Written :=
  let (negative, rest) := sign text
  let whole := rest.takeWhile Char.isDigit
  let rest := rest.dropWhile Char.isDigit
  let (fraction, rest) :=
    match rest with
    | '.' :: rest => (rest.takeWhile Char.isDigit, rest.dropWhile Char.isDigit)
    | rest => ([], rest)
  if whole.isEmpty ∧ fraction.isEmpty then none
  else
    (exponent? rest).map fun e =>
      ⟨negative, digitsValue (whole ++ fraction), e - fraction.length⟩

/-- The nearest floating-point number, infinite if the number is too large. -/
def toFloat (w : Written) : Float :=
  let length : Int := (Nat.repr w.digits).length
  let size : Float :=
    if w.digits = 0 then 0
    else if 400 < w.exponent + length then Float.ofScientific 1 false 400
    else if w.exponent + length < -400 then 0
    else Float.ofScientific w.digits (w.exponent < 0) w.exponent.natAbs
  if w.negative then -size else size

end Written

end CollectorTemplate.Decimal
