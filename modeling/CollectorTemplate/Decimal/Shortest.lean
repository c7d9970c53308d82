/-
The fewest digits that identify a binary floating-point number.

A finite number is `m · 2 ^ q`.  The decimals that read back to it are those nearer to it than to
its neighbours; the two ends of that interval belong to it if `m` is even.  Of these decimals we
want one with the fewest digits, and of several the nearest.  All comparisons are between natural
numbers.

* `Binary.ofFloat` : a finite number as `m` and `q`;
* `Decimal.shortest` : its shortest decimal.

On a grid of decimals with a fixed number of places it is enough to try the two points next to the
number: if any point of the grid lies in the interval, one of these does.
-/
import CollectorTemplate.Width

namespace CollectorTemplate

/-- The size `mantissa · 2 ^ exponent` of a finite binary floating-point number. -/
structure Binary where
  mantissa : Nat
  exponent : Int
  /-- Whether the next smaller number is only half as far away as the next larger one. -/
  narrow : Bool := false
  deriving Repr, DecidableEq, Inhabited

namespace Binary

/-- The size of the finite number with the given bits, the sign apart. -/
def ofBits (bits : Nat) : Binary :=
  let fraction := bits % Width.size 52
  let biased : Nat := bits / Width.size 52 % Width.size 11
  if biased = 0 then ⟨fraction, -1074, false⟩
  else ⟨Width.size 52 + fraction, (biased : Int) - 1075, fraction = 0 ∧ 1 < biased⟩

/-- The size of a finite number. -/
def ofFloat (x : Float) : Binary := ofBits x.toBits.toNat

end Binary

/-- The decimal `digits · 10 ^ exponent`. -/
structure Decimal where
  digits : Nat
  exponent : Int
  deriving Repr, DecidableEq, Inhabited

namespace Decimal

/-- The factor `2 ^ q / 10 ^ k` as a numerator and a denominator. -/
def scale (q k : Int) : Nat × Nat :=
  (Nat.pow 2 q.toNat * Nat.pow 10 (-k).toNat, Nat.pow 2 (-q).toNat * Nat.pow 10 k.toNat)

/-- Whether a decimal reads back to the number: whether it lies between the middles to the number's
neighbours, or on one of them if the mantissa is even. -/
def readsBack (b : Binary) (d : Decimal) : Bool :=
  let (num, den) := scale (b.exponent - 2) d.exponent
  let low := (4 * b.mantissa - (if b.narrow then 1 else 2)) * num
  let high := (4 * b.mantissa + 2) * num
  let point := d.digits * den
  if b.mantissa % 2 = 0 then low ≤ point && point ≤ high else low < point && point < high

/-- The decimal next to the number on the grid of multiples of `10 ^ k` that reads back to it, if
there is one: of two the nearer, and of two that are equally near the even one. -/
def onGrid? (b : Binary) (k : Int) : Option Decimal :=
  let (num, den) := scale b.exponent k
  let below := b.mantissa * num / den
  let rest := b.mantissa * num % den
  let lower : Decimal := ⟨below, k⟩
  let upper : Decimal := ⟨below + 1, k⟩
  match readsBack b lower, readsBack b upper with
  | true, true =>
    if 2 * rest < den ∨ (2 * rest = den ∧ below % 2 = 0) then some lower else some upper
  | true, false => some lower
  | false, true => some upper
  | false, false => none

/-- The exponent of the leading digit of a number that is not zero. -/
def leading (b : Binary) : Int :=
  let guess := ((Nat.log2 b.mantissa : Int) + b.exponent) * 30103 / 100000
  let atLeast (e : Int) : Bool :=
    let (num, den) := scale b.exponent e
    den ≤ b.mantissa * num
  if atLeast (guess + 1) then guess + 1 else if atLeast guess then guess else guess - 1

/-- The decimal without the zeros at the end of its digits. -/
def strip : Nat → Decimal → Decimal
  | 0, d => d
  | limit + 1, d =>
    if d.digits ≠ 0 ∧ d.digits % 10 = 0 then strip limit ⟨d.digits / 10, d.exponent + 1⟩ else d

/-- The shortest decimal that reads back to the number. -/
def shortest (b : Binary) : Decimal :=
  if b.mantissa = 0 then ⟨0, 0⟩
  else
    let e := leading b
    let grids := (List.range 18).map fun n : Nat => e - n
    (grids.findSome? (onGrid? b)).elim ⟨b.mantissa, b.exponent⟩ (strip 20)

end Decimal

end CollectorTemplate
