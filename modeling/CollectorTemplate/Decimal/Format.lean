/-
How numbers are written.

The digits of a floating-point number are chosen by `Decimal.shortest`; a `NumberFormat` says how a
format lays them out.

* `NumberFormat.render` : the text of a number.
-/
import CollectorTemplate.Decimal.Shortest
import CollectorTemplate.Width

namespace CollectorTemplate

/-- The decisions of a format on numbers. -/
structure NumberFormat where
  /-- The least exponent of the leading digit with which a number is written without exponent. -/
  plainFrom : Int
  /-- From this exponent of the leading digit on, numbers are written with exponent. -/
  plainBelow : Int
  /-- Whether a positive exponent has a sign. -/
  exponentPlus : Bool
  /-- The text of what is no number. -/
  nan : String
  /-- The text of positive infinity. -/
  infinity : String
  /-- The text of negative infinity. -/
  negativeInfinity : String
  deriving Repr, DecidableEq

namespace NumberFormat

/-- Digits with the point behind the first `places` of them, which may be before or after all
digits. -/
def plain (digits : List Char) (places : Int) : List Char :=
  if places ≤ 0 then '0' :: '.' :: (List.replicate (-places).toNat '0' ++ digits)
  else
    let whole := places.toNat
    if digits.length ≤ whole then
      digits ++ List.replicate (whole - digits.length) '0' ++ ['.', '0']
    else digits.take whole ++ '.' :: digits.drop whole

/-- Digits with one before the point, and the exponent of the first. -/
def scientific (n : NumberFormat) (digits : List Char) (exponent : Int) : List Char :=
  let mantissa := digits.take 1 ++ (if digits.length ≤ 1 then [] else '.' :: digits.drop 1)
  let sign := if exponent < 0 then ['-'] else if n.exponentPlus then ['+'] else []
  mantissa ++ 'e' :: sign ++ (Nat.repr exponent.natAbs).toList

/-- A decimal that is not negative. -/
def layout (n : NumberFormat) (d : Decimal) : List Char :=
  if d.digits = 0 then "0.0".toList
  else
    let digits := (Nat.repr d.digits).toList
    let exponent := d.exponent + digits.length - 1
    if n.plainFrom ≤ exponent ∧ exponent < n.plainBelow then plain digits (exponent + 1)
    else n.scientific digits exponent

/-- A number. -/
def render (n : NumberFormat) (x : Float) : String :=
  if x.isNaN then n.nan
  else
    let negative := !Width.unsigned 63 x.toBits.toNat
    if x.isInf then if negative then n.negativeInfinity else n.infinity
    else
      let digits := n.layout (.shortest (.ofFloat x))
      String.ofList (if negative then '-' :: digits else digits)

end NumberFormat

end CollectorTemplate
