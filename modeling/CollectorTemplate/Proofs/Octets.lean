/-
The order of texts and of their octets.

Texts are ordered by code points.  In UTF-8 the octets of a character hold the digits of its code
point, the highest first, and more octets have a greater first one.  So octets give the same order.

* `Text.octets` : the octets of a text;
* `Text.encode_lt` : the octets of two characters differ in the order of the characters;
* `Text.octets_lt_iff` : octets are ordered as texts are.
-/
import CollectorTemplate.Entries
import Mathlib.Data.List.Lex
import Mathlib.Tactic.SplitIfs

namespace CollectorTemplate.Text

/-- The octets of a text in UTF-8. -/
def octets (text : String) : List UInt8 := text.toUTF8.data.toList

theorem octets_eq (text : String) : octets text = text.toList.flatMap String.utf8EncodeChar := by
  have h : text.toUTF8 = (text.toList.flatMap String.utf8EncodeChar).toByteArray :=
    String.utf8Encode_toList.symm
  rw [octets, h, List.data_toByteArray]

/-- Octets are compared as the numbers that they are made of. -/
theorem ofNat_cons_lt {m n : Nat} (hm : m < 256) (hn : n < 256) (rest rest' : List UInt8) :
    UInt8.ofNat m :: rest < UInt8.ofNat n :: rest' ↔ m < n ∨ m = n ∧ rest < rest' := by
  rw [List.cons_lt_cons_iff, UInt8.lt_iff_toNat_lt, ← UInt8.toNat_inj, UInt8.toNat_ofNat',
    UInt8.toNat_ofNat', Nat.mod_eq_of_lt hm, Nat.mod_eq_of_lt hn]

/-- The octets of a smaller character come first, whatever follows. -/
theorem encode_lt {c d : Char} (h : c < d) (rest rest' : List UInt8) :
    String.utf8EncodeChar c ++ rest < String.utf8EncodeChar d ++ rest' := by
  have hlt : c.val.toNat < d.val.toNat := h
  have hbound : d.val.toNat < 0x110000 := by
    rcases d.valid with h | h
    · omega
    · exact h.2
  rw [String.utf8EncodeChar, String.utf8EncodeChar]
  generalize c.val.toNat = v at hlt
  generalize d.val.toNat = w at hlt hbound
  -- The octets hold the digits to base 64, the highest first.
  have htwo (n : Nat) : n / 4096 = n / 64 / 64 := by omega
  have hthree (n : Nat) : n / 262144 = n / 64 / 64 / 64 := by omega
  split_ifs
  all_goals
    simp (disch := omega) only [List.cons_append, List.nil_append, ofNat_cons_lt, htwo, hthree]
    omega

theorem flatMap_encode_lt {text text' : List Char} (h : text < text') :
    text.flatMap String.utf8EncodeChar < text'.flatMap String.utf8EncodeChar := by
  induction h with
  | @nil c rest =>
    obtain ⟨octet, others, hencode⟩ :=
      List.exists_cons_of_ne_nil (String.utf8EncodeChar_ne_nil (c := c))
    rw [List.flatMap_nil, List.flatMap_cons, hencode]
    exact List.nil_lt_cons _ _
  | cons _ ih => exact List.append_left_lt ih
  | rel h => exact encode_lt h _ _

/-- Octets are ordered as texts are. -/
theorem octets_lt_iff {text text' : String} : octets text < octets text' ↔ text < text' := by
  have hlt {text text' : String} (h : text < text') : octets text < octets text' := by
    rw [octets_eq, octets_eq]
    exact flatMap_encode_lt (String.lt_iff.mp h)
  refine ⟨fun h => ?_, hlt⟩
  -- A text that is not before the other is equal to it or behind it.
  by_contra hnot
  have hle : text' ≤ text := String.not_lt.mp hnot
  by_cases hback : text' < text
  · exact List.lt_asymm h (hlt hback)
  · obtain rfl := String.le_antisymm hle (String.not_lt.mp hback)
    exact List.lt_irrefl _ h

end CollectorTemplate.Text
