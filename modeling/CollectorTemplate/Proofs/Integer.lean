/-
Integers in fragments.

An integer that a fragment writes as the value of its one entry is kept as long as it has 64 bits.
Between these and 64 bits without sign it becomes the nearest floating-point number, and so it does
again beyond 128 bits.  In between it is refused, as the reader has an integer there that data
cannot hold; and what is beyond the finite range of floating-point numbers is a string.

* `Scalar.resolve_decimal` : what the digits of an integer mean, however many there are;
* `Fragment.parse_integer` : what a fragment of one integer is parsed as;
* `Fragment.parse_integer_refused` : one that is refused.
-/
import CollectorTemplate.Proofs.Decimal.Infinite
import CollectorTemplate.Proofs.Plain
import CollectorTemplate.Proofs.Yaml.Denoted
import CollectorTemplate.Proofs.Yaml.Entry

namespace CollectorTemplate

namespace Width

theorem unsigned_iff {bits n : Nat} : unsigned bits n = true ↔ n < 2 ^ bits :=
  decide_eq_true_iff

theorem signed_iff {bits : Nat} {n : Int} :
    signed bits n = true ↔ -2 ^ (bits - 1) ≤ n ∧ n < 2 ^ (bits - 1) := by
  have hsize : ((size (bits - 1) : Nat) : Int) = 2 ^ (bits - 1) := Int.natCast_pow 2 (bits - 1)
  rw [signed, Bool.and_eq_true, decide_eq_true_iff, decide_eq_true_iff, hsize]

end Width

namespace Yaml.Scalar

open Decimal

/-! ### Digits -/

/-- The digits of an integer behind its sign. -/
def decimal (negative : Bool) (m : Nat) : List Char :=
  if negative then '-' :: (Nat.repr m).toList else (Nat.repr m).toList

/-- The integer that they write. -/
def signed (negative : Bool) (m : Nat) : Int := if negative then -(m : Int) else m

theorem fits_decimal (negative : Bool) (m : Nat) : Fits .plain (decimal negative m) := by
  obtain ⟨c, rest, hrepr, hdigits⟩ := repr_spec m
  obtain ⟨hc, hrest⟩ := List.forall_mem_cons.mp hdigits
  rw [decimal, hrepr]
  exact fits_of_isWordText
    (isWordText_of_digit negative hc fun x hx => isPlainChar_of_isDigit (hrest x hx))

theorem negative?_digits (bits m : Nat) : negative? bits (Nat.repr m).toList = none := by
  obtain ⟨c, rest, hrepr, hdigits⟩ := repr_spec m
  rw [hrepr]
  unfold negative?
  split
  · rename_i heq
    obtain ⟨rfl, -⟩ := List.cons.inj heq
    nomatch hdigits '-' List.mem_cons_self
  · rfl

/-- The digits of an integer write it as a decimal. -/
theorem read?_decimal (negative : Bool) (m : Nat) :
    Written.read? (decimal negative m) = some (.ofNat negative m) := by
  obtain ⟨c, rest, hrepr, -⟩ := repr_spec m
  have hleading : (Nat.repr m).toList.head? = some '0' → (Nat.repr m).toList.length = 1 := by
    intro hhead
    cases m with
    | zero => rfl
    | succ m => exact absurd hhead (head_repr_ne_zero (Nat.succ_pos m))
  have hread := Json.Number.read?_text false
    (Json.Number.Proper.bare negative none (by simp [hrepr]) (fun _ => isDigit_of_mem_repr)
      hleading)
  have htext : Json.Number.text false ⟨negative, (Nat.repr m).toList, none, none⟩ =
      decimal negative m := by
    simp [Json.Number.text, Json.Number.sizeText, Json.Number.fractionText,
      Json.Number.exponentText, decimal]
  have hvalue : Json.Number.written ⟨negative, (Nat.repr m).toList, none, none⟩ =
      .ofNat negative m := by
    show Written.mk negative (digitsValue ((Nat.repr m).toList ++ [])) (0 - 0) = _
    rw [List.append_nil, digitsValue_repr]
    rfl
  rw [← htext, hread, hvalue]

theorem isLeadingZero_decimal (negative : Bool) (m : Nat) :
    isLeadingZero (decimal negative m) = false := by
  cases negative with
  | true => exact (isLeadingZero_repr m).2
  | false => exact (isLeadingZero_repr m).1

/-! ### Meanings -/

/-- Whether the reader has an integer of this size, of 128 bits. -/
def hasWidth (negative : Bool) (m : Nat) : Bool :=
  if negative then Width.signed 128 (-(m : Int)) else Width.unsigned 128 m

/-- What the digits mean as an integer. -/
def meaning (negative : Bool) (m : Nat) : Meaning :=
  if negative then .negative (-(m : Int)) else .natural m

/-- Digits mean an integer up to 128 bits. -/
theorem integer?_decimal (negative : Bool) (m : Nat) :
    integer? (decimal negative m) =
      if hasWidth negative m then some (meaning negative m) else none := by
  cases negative with
  | true =>
    have hwide : Width.signed 64 (-(m : Int)) = true → Width.signed 128 (-(m : Int)) = true :=
      Width.signed_of_le (by decide)
    simp only [decimal, hasWidth, meaning, integer?, if_true, natural?_dash, negative?_repr,
      Option.filter_some, Option.map_none, Option.none_or]
    by_cases h : Width.signed 64 (-(m : Int)) = true
    · rw [if_pos h, if_pos (hwide h), if_pos (hwide h)]
      rfl
    · rw [if_neg h]
      split
      · rfl
      · rfl
  | false =>
    have hwide : Width.unsigned 64 m = true → Width.unsigned 128 m = true :=
      Width.unsigned_of_le (by decide)
    simp only [decimal, hasWidth, meaning, integer?, Bool.false_eq_true, if_false, natural?_repr,
      negative?_digits, Option.filter_some, Option.map_none, Option.none_or, Option.or_none]
    by_cases h : Width.unsigned 64 m = true
    · rw [if_pos h, if_pos (hwide h), if_pos (hwide h)]
      rfl
    · rw [if_neg h]
      split
      · rfl
      · rfl

/-- What the digits of an integer mean: beyond 128 bits a number, or a string if that is not
finite. -/
theorem resolve_decimal (negative : Bool) (m : Nat) :
    resolve (decimal negative m) =
      if hasWidth negative m then meaning negative m
      else if m < Rounding.limit then .float (Float.ofInt (signed negative m))
      else .string := by
  by_cases hwidth : hasWidth negative m = true
  · have hinteger := integer?_decimal negative m
    rw [if_pos hwidth] at hinteger ⊢
    obtain ⟨c, rest, hrepr, hdigits⟩ := repr_spec m
    cases negative with
    | true => exact resolve_of_integer? (.inr rfl) hinteger
    | false =>
      rw [decimal, if_neg Bool.false_ne_true, hrepr] at hinteger ⊢
      exact resolve_of_integer? (.inl (hdigits c List.mem_cons_self)) hinteger
  · have hinteger := integer?_decimal negative m
    rw [if_neg hwidth] at hinteger ⊢
    rw [resolve_of_read? (read?_decimal negative m) hinteger (isLeadingZero_decimal negative m)]
    have hzero : m ≠ 0 := by
      rintro rfl
      cases negative <;> exact hwidth (by decide)
    by_cases hlimit : m < Rounding.limit
    · rw [if_pos (Written.isFinite_toFloat_iff.mpr hlimit), if_pos hlimit,
        Written.toFloat_eq_ofInt hzero hlimit, signed]
    · rw [if_neg (hlimit ∘ Written.isFinite_toFloat_iff.mp), if_neg hlimit]

/-- The digits of an integer other than zero are its text. -/
theorem ofList_decimal (negative : Bool) {m : Nat} (hzero : m ≠ 0) :
    String.ofList (decimal negative m) = toString (signed negative m) := by
  obtain ⟨k, rfl⟩ := Nat.exists_eq_succ_of_ne_zero hzero
  rw [← String.toList_inj, String.toList_ofList]
  cases negative with
  | true =>
    show _ = ("-" ++ Nat.repr (k + 1)).toList
    rw [String.toList_append]
    rfl
  | false => rfl

end Yaml.Scalar

namespace Fragment

open Yaml Scalar

/-! ### Fragments -/

/-- The text of a fragment whose one entry has an integer. -/
theorem integerLine_eq (negative : Bool) (m : Nat) (feed : Bool) :
    "k: " ++ (if negative then "-" else "") ++ toString m ++ (if feed then "\n" else "") =
      .ofList (onlyEntry (decimal negative m) feed) := by
  rw [← String.toList_inj, String.toList_ofList, onlyEntry, decimal]
  simp only [String.toList_append]
  cases negative <;> cases feed <;> rfl

/-- An entry with a word is not blank. -/
theorem isBlank_onlyEntry {word : List Char} (hfits : Fits .plain word) (feed : Bool) :
    isBlank (.ofList (onlyEntry word feed)) = false := by
  have hbreaks : ∀ c ∈ word, isBreak c = false := by
    have hplain := hfits.1
    simp only [plainHolds, Bool.and_eq_true, Bool.not_eq_true', List.any_eq_false,
      Bool.not_eq_true] at hplain
    exact hplain.1.1.2
  have hfed : LineFed (String.ofList (onlyEntry word feed)).toList := by
    refine .of_newlines fun c hc hbreak => ?_
    rw [String.toList_ofList] at hc
    rcases (by simpa [onlyEntry] using hc :
      c = 'k' ∨ c = ':' ∨ c = ' ' ∨ c ∈ word ∨ c ∈ lineEnd feed) with rfl | rfl | rfl | hc | hc
    · exact absurd hbreak (by decide)
    · exact absurd hbreak (by decide)
    · exact absurd hbreak (by decide)
    · exact absurd hbreak (by rw [hbreaks c hc]; exact Bool.false_ne_true)
    · cases feed with
      | true => exact List.mem_singleton.mp hc
      | false => exact absurd hc List.not_mem_nil
  obtain ⟨line, later, hlines⟩ := exists_lines (':' :: ' ' :: (word ++ lineEnd feed))
  rw [hfed.isBlank_eq, String.toList_ofList, onlyEntry, lines_cons rfl hlines, blankLines,
    blankLine?_eq_none rfl (by decide)]

/-- An entry is parsed as what its word means. -/
theorem parse_onlyEntry {word : List Char} (hfits : Fits .plain word) (feed : Bool) :
    parse (.ofList (onlyEntry word feed)) =
      match meaningData Strictness.value.expected word (resolve word) with
      | .ok value => ((convert value).map fun tree => .mapping [("k", tree)]).mapError fun e =>
          ⟨e.text, none⟩
      | .error cause =>
        .error (.ofReadError (.complaint cause wordPlace (.entry .root ['k']))) := by
  rw [parse, isBlank_onlyEntry hfits, if_neg Bool.false_ne_true, read, Document.data_entry hfits]
  cases meaningData Strictness.value.expected word (resolve word) with
  | error cause => rfl
  | ok value =>
    have hconvert : convert (.mapping [(.string "k", value)]) =
        (convert value).map fun tree => .mapping [("k", tree)] := by
      rw [convert, convertEntries]
      cases convert value <;> rfl
    simp only [hconvert]
    cases convert value <;> rfl

/-- Integers up to 128 bits have data just if they have 64 bits, with sign if they are written with
one. -/
theorem meaningData_decimal (negative : Bool) (m : Nat) (expected : String) (word : List Char) :
    (hasWidth negative m = true ↔ -2 ^ 127 ≤ signed negative m ∧ signed negative m < 2 ^ 128) ∧
      meaningData expected word (meaning negative m) =
        if -2 ^ 63 ≤ signed negative m ∧ signed negative m < 2 ^ 64 then
          .ok (if negative then .negative (signed negative m) else .natural m)
        else .error (.wrongType (.wide (signed negative m)) expected) := by
  cases negative with
  | true =>
    simp only [hasWidth, signed, meaning, meaningData, if_true, Width.signed_iff]
    refine ⟨by omega, ?_⟩
    congr 1
    rw [eq_iff_iff]
    omega
  | false =>
    simp only [hasWidth, signed, meaning, meaningData, Bool.false_eq_true, if_false,
      Width.unsigned_iff]
    refine ⟨by omega, ?_⟩
    congr 1
    rw [eq_iff_iff]
    omega

/-- A complaint about the word of the entry. -/
theorem text_wordPlace (cause : Complaint) :
    (ReadError.complaint cause wordPlace (.entry .root ['k'])).text =
      "k: " ++ cause.text ++ " at line 1 column 4" := by
  have hpath : (Path.entry .root ['k']).text = "k" := rfl
  have hplace : wordPlace.text = "line 1 column 4" := rfl
  have hstart : wordPlace.isStart = false := rfl
  rw [ReadError.text, ReadError.placed, hpath, hplace, hstart, if_neg Bool.false_ne_true,
    if_neg (by decide)]
  simp [← String.toList_inj]

/-- The complaint about an integer that data cannot hold. -/
theorem ofReadError_wide (n : Int) :
    SyntaxError.ofReadError (.complaint (.wrongType (.wide n) Strictness.value.expected) wordPlace
        (.entry .root ['k'])) =
      ⟨"k: invalid type: integer \x60" ++ toString n ++ "\x60 as " ++
        (if n < 0 then "i128" else "u128") ++ ", expected any YAML value at line 1 column 4",
        some ⟨1, 4⟩⟩ := by
  have hcause : (Complaint.wrongType (.wide n) Strictness.value.expected).text =
      "invalid type: " ++ ("integer \x60" ++ toString n ++ "\x60 as " ++
        (if n < 0 then "i128" else "u128")) ++ ", expected " ++ "any YAML value" := rfl
  rw [SyntaxError.ofReadError, text_wordPlace, hcause]
  refine congrArg₂ SyntaxError.mk ?_ rfl
  split
  · simp [← String.toList_inj]
  · simp [← String.toList_inj]

/-- What a fragment with an integer as its one value is parsed as: the integer if it has 64 bits
with sign, the nearest number if it has 64 bits without sign, nothing if it has more but no more
than 128 bits, and beyond that the nearest number again, or a string if that is not finite. -/
theorem parse_integer (negative : Bool) (m : Nat) (feed : Bool) :
    parse ("k: " ++ (if negative then "-" else "") ++ toString m ++ (if feed then "\n" else "")) =
      if -2 ^ 63 ≤ signed negative m ∧ signed negative m < 2 ^ 63 then
        .ok (.mapping [("k", .integer (signed negative m))])
      else if -2 ^ 63 ≤ signed negative m ∧ signed negative m < 2 ^ 64 then
        .ok (.mapping [("k", .float (Float.ofInt (signed negative m)))])
      else if -2 ^ 127 ≤ signed negative m ∧ signed negative m < 2 ^ 128 then
        .error ⟨"k: invalid type: integer \x60" ++ toString (signed negative m) ++ "\x60 as " ++
          (if signed negative m < 0 then "i128" else "u128") ++
          ", expected any YAML value at line 1 column 4", some ⟨1, 4⟩⟩
      else if m < Rounding.limit then
        .ok (.mapping [("k", .float (Float.ofInt (signed negative m)))])
      else .ok (.mapping [("k", .string (toString (signed negative m)))]) := by
  obtain ⟨hwidth, hdata⟩ := meaningData_decimal negative m Strictness.value.expected
    (decimal negative m)
  have hsize : m = (signed negative m).natAbs := by
    cases negative <;> simp [signed]
  rw [integerLine_eq, parse_onlyEntry (fits_decimal negative m), resolve_decimal]
  generalize hn : signed negative m = n at hwidth hdata hsize ⊢
  by_cases h128 : -2 ^ 127 ≤ n ∧ n < 2 ^ 128
  · rw [if_pos (hwidth.mpr h128), hdata]
    by_cases h64 : -2 ^ 63 ≤ n ∧ n < 2 ^ 64
    · have hconvert : convert (if negative then .negative n else .natural m) =
          .ok (integerTree n) := by
        rw [← hn]
        cases negative <;> rfl
      simp only [if_pos h64, hconvert]
      by_cases h63 : -2 ^ 63 ≤ n ∧ n < 2 ^ 63
      · rw [if_pos h63, integerTree, if_pos (Width.signed_iff.mpr h63)]
        rfl
      · rw [if_neg h63, integerTree, if_neg (h63 ∘ Width.signed_iff.mp)]
        rfl
    · rw [if_neg h64, if_neg (fun h63 => h64 ⟨h63.1, h63.2.trans (by decide)⟩), if_neg h64,
        if_pos h128]
      exact congrArg Except.error (ofReadError_wide n)
  · -- So large an integer is not zero, and none of the smaller ones either.
    have hzero : m ≠ 0 := by omega
    have h64 : ¬(-2 ^ 63 ≤ n ∧ n < 2 ^ 64) := by omega
    have h63 : ¬(-2 ^ 63 ≤ n ∧ n < 2 ^ 63) := by omega
    rw [if_neg (h128 ∘ hwidth.mp), if_neg h63, if_neg h64, if_neg h128]
    by_cases hlimit : m < Rounding.limit
    · rw [if_pos hlimit, if_pos hlimit]
      rfl
    · rw [if_neg hlimit, if_neg hlimit, ← hn, ← ofList_decimal negative hzero]
      rfl

theorem exists_of_isNone {ε α : Type} {x : Except ε α} (h : x.toOption.isNone = true) :
    ∃ e, x = .error e := by
  cases x with
  | error e => exact ⟨e, rfl⟩
  | ok value => nomatch h

/-- The first integers beyond 64 bits, without the sign and with it, are refused. -/
theorem parse_integer_refused :
    (∃ e, parse "k: 18446744073709551616" = .error e) ∧
      ∃ e, parse "k: -9223372036854775809" = .error e :=
  ⟨exists_of_isNone (by decide +kernel), exists_of_isNone (by decide +kernel)⟩

end Fragment

end CollectorTemplate
