/-
Names made up at random.

* `Text.uuid` : the identifier of version four with given random bits.
-/
import CollectorTemplate.Width

namespace CollectorTemplate.Text

/-- The last `width` hexadecimal digits of a number. -/
def lowerHex : (width : Nat) → Nat → List Char
  | 0, _ => []
  | width + 1, n => lowerHex width (n / 16) ++ [Nat.digitChar (n % 16)]

/-- The identifier with the last 122 of the bits: thirty-two hexadecimal digits in five groups, of
which the thirteenth says the version, four, and the seventeenth begins with the bits of the
variant. -/
def uuid (bits : Nat) : String :=
  let low := bits % Width.size 62
  let middle := bits / Width.size 62 % Width.size 12
  let high := bits / Width.size 74 % Width.size 48
  let groups :=
    [lowerHex 8 (high / Width.size 16), lowerHex 4 high, '4' :: lowerHex 3 middle,
      lowerHex 4 (Width.size 15 + low / Width.size 48), lowerHex 12 low]
  "-".intercalate (groups.map String.ofList)

end CollectorTemplate.Text
