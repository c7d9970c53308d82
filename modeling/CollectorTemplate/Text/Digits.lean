/-
Digits and code points.

* `hexDigit?`, `hexValue?` : what hexadecimal digits write;
* `radixValue?` : what digits write in another radix, `radixMark?` : how that radix is marked;
* `codePoint?` : the character of a code point.
-/

namespace CollectorTemplate.Text

/-- The value of a hexadecimal digit of either case. -/
def hexDigit? (c : Char) : Option Nat :=
  if c.isDigit then some (c.toNat - '0'.toNat)
  else if 'a' ≤ c ∧ c ≤ 'f' then some (c.toNat - 'a'.toNat + 10)
  else if 'A' ≤ c ∧ c ≤ 'F' then some (c.toNat - 'A'.toNat + 10)
  else none

/-- The number that hexadecimal digits write, if all of them are digits. -/
def hexValue? (digits : List Char) : Option Nat :=
  digits.foldl (fun n c => do return 16 * (← n) + (← hexDigit? c)) (some 0)

/-- The value of digits in a radix up to sixteen; there must be digits, and nothing else. -/
def radixValue? (radix : Nat) (digits : List Char) : Option Nat :=
  if digits.isEmpty then none
  else digits.foldl
    (fun n d => do
      let n ← n
      let v ← hexDigit? d
      if v < radix then some (radix * n + v) else none)
    (some 0)

/-- The digits behind the mark of a radix other than ten, and that radix. -/
def radixMark? : List Char → Option (Nat × List Char)
  | '0' :: 'x' :: rest => some (16, rest)
  | '0' :: 'o' :: rest => some (8, rest)
  | '0' :: 'b' :: rest => some (2, rest)
  | _ => none

/-- The character with a given code point, which must be one. -/
def codePoint? (n : Nat) : Option Char :=
  if n < 0xd800 ∨ (0xdfff < n ∧ n < 0x110000) then some (Char.ofNat n) else none

end CollectorTemplate.Text
