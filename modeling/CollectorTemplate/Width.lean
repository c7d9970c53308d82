/-
Integers of a given width in bits.

* `Width.size` : how many there are;
* `Width.unsigned`, `Width.signed` : whether a number is one of them, without a sign or with one.
-/

namespace CollectorTemplate.Width

/-- The number of values that so many bits can have. -/
def size (bits : Nat) : Nat := Nat.pow 2 bits

/-- Whether a number fits into so many bits. -/
def unsigned (bits n : Nat) : Bool := n < size bits

/-- Whether a number fits into so many bits, of which one is for the sign. -/
def signed (bits : Nat) (n : Int) : Bool := -(size (bits - 1) : Int) ≤ n && n < size (bits - 1)

end CollectorTemplate.Width
