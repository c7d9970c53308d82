/-
Numbers in texts.

A number is read from its own text, whatever follows it that cannot continue it.  Both formats write
numbers in this way, and differ only in the sign of an exponent.

* `Number.scan?_text` : a number at the beginning of a text;
* `Number.read?_text` : the text of a number as a decimal;
* `NumberFormat.layout_eq` : what a format lays out is the text of a number.
-/
import CollectorTemplate.Decimal.Format
import CollectorTemplate.Json.Number
import CollectorTemplate.Proofs.Data
import CollectorTemplate.Proofs.Digits

namespace CollectorTemplate

namespace Json.Number

open Decimal

/-! ### Texts of numbers -/

def fractionText : Option (List Char) → List Char
  | none => []
  | some digits => '.' :: digits

/-- The text of an exponent; `plus` says whether one that is not negative has a sign. -/
def exponentText (plus : Bool) : Option Int → List Char
  | none => []
  | some e =>
    'e' :: (if e < 0 then ['-'] else if plus then ['+'] else []) ++ (Nat.repr e.natAbs).toList

/-- The text of a number without its sign. -/
def sizeText (plus : Bool) (n : Number) : List Char :=
  n.whole ++ (fractionText n.fraction ++ exponentText plus n.exponent)

/-- The text of a number. -/
def text (plus : Bool) (n : Number) : List Char :=
  if n.negative then '-' :: n.sizeText plus else n.sizeText plus

/-- What holds of the parts of a number: they are digits, and only zero begins with a zero. -/
structure Proper (n : Number) : Prop where
  whole_ne : n.whole ≠ []
  whole : ∀ c ∈ n.whole, c.isDigit = true
  leading : n.whole.head? = some '0' → n.whole.length = 1
  fraction_ne : ∀ digits ∈ n.fraction, digits ≠ []
  fraction : ∀ digits ∈ n.fraction, ∀ c ∈ digits, c.isDigit = true

/-- A number without a point. -/
theorem Proper.bare {whole : List Char} (negative : Bool) (exponent : Option Int)
    (hne : whole ≠ []) (hwhole : ∀ c ∈ whole, c.isDigit = true)
    (hleading : whole.head? = some '0' → whole.length = 1) :
    Proper ⟨negative, whole, none, exponent⟩ where
  whole_ne := hne
  whole := hwhole
  leading := hleading
  fraction_ne := fun _ h => nomatch h
  fraction := fun _ h => nomatch h

/-- A number with digits behind its point. -/
theorem Proper.point {whole fraction : List Char} (negative : Bool) (exponent : Option Int)
    (hne : whole ≠ []) (hwhole : ∀ c ∈ whole, c.isDigit = true)
    (hleading : whole.head? = some '0' → whole.length = 1) (hfraction : fraction ≠ [])
    (hdigits : ∀ c ∈ fraction, c.isDigit = true) :
    Proper ⟨negative, whole, some fraction, exponent⟩ where
  whole_ne := hne
  whole := hwhole
  leading := hleading
  fraction_ne := fun digits h => by
    obtain rfl : fraction = digits := Option.some.inj h
    exact hfraction
  fraction := fun digits h => by
    obtain rfl : fraction = digits := Option.some.inj h
    exact hdigits

/-- A text that cannot continue a number. -/
def Ends (rest : List Char) : Prop :=
  ∀ c ∈ rest.head?, c.isDigit = false ∧ c ≠ '.' ∧ c ≠ 'e' ∧ c ≠ 'E'

/-- A number begins with a digit, perhaps behind a minus sign. -/
theorem head_text (plus : Bool) {n : Number} (h : n.Proper) :
    ∃ c tail, n.text plus = c :: tail ∧ (c = '-' ∨ c.isDigit = true) := by
  obtain ⟨negative, whole, fraction, exponent⟩ := n
  obtain ⟨c, digits, rfl⟩ := List.exists_cons_of_ne_nil h.whole_ne
  cases negative with
  | true => exact ⟨'-', _, rfl, .inl rfl⟩
  | false => exact ⟨c, _, rfl, .inr (h.whole c List.mem_cons_self)⟩

/-- The number as a decimal. -/
def written (n : Number) : Written where
  negative := n.negative
  digits := digitsValue (n.whole ++ n.fraction.getD [])
  exponent := n.exponent.getD 0 - (n.fraction.getD []).length

/-! ### Scanning -/

theorem ends_nil : Ends [] := fun _ h => nomatch h

/-- What follows the digits of a number. -/
theorem span_digits {digits rest : List Char} (hdigits : ∀ c ∈ digits, c.isDigit = true)
    (hrest : ∀ c ∈ rest.head?, c.isDigit = false) :
    (digits ++ rest).takeWhile Char.isDigit = digits ∧
      (digits ++ rest).dropWhile Char.isDigit = rest := by
  rw [List.takeWhile_append_of_pos hdigits, List.dropWhile_append_of_pos hdigits]
  cases rest with
  | nil => exact ⟨List.append_nil digits, rfl⟩
  | cons c rest =>
    have hc : ¬c.isDigit = true := by simp [hrest c rfl]
    rw [List.takeWhile_cons_of_neg hc, List.dropWhile_cons_of_neg hc]
    exact ⟨List.append_nil digits, rfl⟩

theorem digits?_append {digits rest : List Char} (hne : digits ≠ [])
    (hdigits : ∀ c ∈ digits, c.isDigit = true) (hrest : ∀ c ∈ rest.head?, c.isDigit = false) :
    digits? (digits ++ rest) = some (digits, rest) := by
  obtain ⟨htake, hdrop⟩ := span_digits hdigits hrest
  rw [digits?, htake, hdrop]
  exact if_neg (by simpa using hne)

theorem ends_exponentText (plus : Bool) (e : Option Int) {rest : List Char} (hrest : Ends rest) :
    ∀ c ∈ (exponentText plus e ++ rest).head?, c.isDigit = false ∧ c ≠ '.' := by
  cases e with
  | none => exact fun c hc => ⟨(hrest c hc).1, (hrest c hc).2.1⟩
  | some e =>
    intro c hc
    obtain rfl : 'e' = c := Option.some.inj hc
    exact ⟨rfl, by decide⟩

theorem ends_fractionText (plus : Bool) (n : Number) {rest : List Char} (hrest : Ends rest) :
    ∀ c ∈ (fractionText n.fraction ++ (exponentText plus n.exponent ++ rest)).head?,
      c.isDigit = false := by
  cases n.fraction with
  | none => exact fun c hc => (ends_exponentText plus n.exponent hrest c hc).1
  | some digits =>
    intro c hc
    obtain rfl : '.' = c := Option.some.inj hc
    rfl

theorem fraction?_text {fraction : Option (List Char)} {rest : List Char}
    (hne : ∀ digits ∈ fraction, digits ≠ [])
    (hdigits : ∀ digits ∈ fraction, ∀ c ∈ digits, c.isDigit = true)
    (hrest : ∀ c ∈ rest.head?, c.isDigit = false ∧ c ≠ '.') :
    fraction? (fractionText fraction ++ rest) = some (fraction, rest) := by
  cases fraction with
  | none =>
    cases rest with
    | nil => rfl
    | cons c rest =>
      have hdot := (hrest c rfl).2
      change fraction? (c :: rest) = _
      unfold fraction?
      split
      · rename_i heq
        exact absurd (List.cons.inj heq).1 hdot
      · rfl
  | some digits =>
    change (digits? (digits ++ rest)).map _ = _
    rw [digits?_append (hne digits rfl) (hdigits digits rfl) fun c hc => (hrest c hc).1]
    rfl

/-- A sign in front of digits. -/
theorem sign_repr (e : Int) (plus : Bool) (rest : List Char) :
    Written.sign ((if e < 0 then ['-'] else if plus then ['+'] else []) ++
      ((Nat.repr e.natAbs).toList ++ rest)) =
      (decide (e < 0), (Nat.repr e.natAbs).toList ++ rest) := by
  obtain ⟨c, digits, hrepr, hdigits⟩ := repr_spec e.natAbs
  have hc := hdigits c List.mem_cons_self
  split
  · rename_i hneg
    rw [decide_eq_true hneg]
    rfl
  rename_i hneg
  rw [decide_eq_false hneg]
  split
  · rfl
  rw [hrepr]
  change Written.sign (c :: (digits ++ rest)) = _
  unfold Written.sign
  split
  · rename_i heq
    rw [(List.cons.inj heq).1] at hc
    exact absurd hc (by decide)
  · rename_i heq
    rw [(List.cons.inj heq).1] at hc
    exact absurd hc (by decide)
  · rfl

/-- The value of an exponent by its sign and its digits. -/
theorem value_repr (e : Int) :
    (if decide (e < 0) then -(digitsValue (Nat.repr e.natAbs).toList : Int)
      else (digitsValue (Nat.repr e.natAbs).toList : Int)) = e := by
  rw [digitsValue_repr]
  by_cases h : e < 0
  · rw [if_pos (decide_eq_true h)]
    omega
  · rw [if_neg (by simpa using h)]
    omega

theorem exponent?_text (plus : Bool) (e : Option Int) {rest : List Char} (hrest : Ends rest) :
    exponent? (exponentText plus e ++ rest) = some (e, rest) := by
  cases e with
  | none =>
    cases rest with
    | nil => rfl
    | cons c rest =>
      obtain ⟨-, -, he, hE⟩ := hrest c rfl
      exact if_neg (not_or.mpr ⟨he, hE⟩)
  | some e =>
    obtain ⟨c, digits, hrepr, hdigits⟩ := repr_spec e.natAbs
    have hscan : digits? ((Nat.repr e.natAbs).toList ++ rest) =
        some ((Nat.repr e.natAbs).toList, rest) :=
      digits?_append (by simp [hrepr]) (fun c => isDigit_of_mem_repr) fun c hc => (hrest c hc).1
    simp only [exponentText, List.cons_append, List.append_assoc, exponent?, true_or, if_true,
      sign_repr, hscan, Option.map_some, value_repr]

/-- A number at the beginning of a text is scanned. -/
theorem scan?_text (plus : Bool) {n : Number} (h : n.Proper) {rest : List Char}
    (hrest : Ends rest) : scan? (n.text plus ++ rest) = some (n, rest) := by
  obtain ⟨negative, whole, fraction, exponent⟩ := n
  have hwhole : digits? (whole ++ (fractionText fraction ++ (exponentText plus exponent ++ rest))) =
      some (whole, fractionText fraction ++ (exponentText plus exponent ++ rest)) :=
    digits?_append h.whole_ne h.whole (ends_fractionText plus ⟨negative, whole, fraction, exponent⟩
      hrest)
  have hfraction := fraction?_text h.fraction_ne h.fraction (ends_exponentText plus exponent hrest)
  have hexponent := exponent?_text plus exponent hrest
  have hleading : ¬(whole.head? = some '0' ∧ 1 < whole.length) := fun hzero =>
    absurd (h.leading hzero.1) (Nat.ne_of_gt hzero.2)
  cases negative with
  | true =>
    change scan? ('-' :: (whole ++ (fractionText fraction ++ exponentText plus exponent)) ++ rest) = _
    rw [List.cons_append, List.append_assoc, List.append_assoc]
    simp [scan?, hwhole, hfraction, hexponent, hleading]
  | false =>
    change scan? ((whole ++ (fractionText fraction ++ exponentText plus exponent)) ++ rest) = _
    rw [List.append_assoc, List.append_assoc]
    obtain ⟨c, digits, rfl⟩ := List.exists_cons_of_ne_nil h.whole_ne
    have hdash : c ≠ '-' := by
      rintro rfl
      exact absurd (h.whole '-' List.mem_cons_self) (by decide)
    have hzero : c = '0' → digits = [] := by
      rintro rfl
      exact List.eq_nil_of_length_eq_zero (Nat.succ.inj (h.leading rfl))
    rw [List.cons_append] at hwhole ⊢
    unfold scan?
    split
    rename_i negative text hsign
    split at hsign
    · rename_i heq
      exact absurd (List.cons.inj heq).1 hdash
    obtain ⟨rfl, rfl⟩ := Prod.mk.inj hsign
    simpa [hwhole, hfraction, hexponent] using hzero

/-! ### Decimals -/

/-- The text of an exponent has nothing behind it. -/
theorem exponent?_written (plus : Bool) (e : Option Int) :
    Written.exponent? (exponentText plus e) = some (e.getD 0) := by
  cases e with
  | none => rfl
  | some e =>
    have hsign := sign_repr e plus []
    obtain ⟨c, digits, hrepr, hdigits⟩ := repr_spec e.natAbs
    have hall : (Nat.repr e.natAbs).toList.all Char.isDigit = true :=
      List.all_eq_true.mpr fun c => isDigit_of_mem_repr
    have hne : (Nat.repr e.natAbs).toList.isEmpty = false := by rw [hrepr]; rfl
    rw [List.append_nil] at hsign
    simp only [exponentText, List.cons_append, Written.exponent?, true_or, if_true, hsign, hne, hall,
      Bool.not_true, Bool.false_eq_true, or_self, if_false, value_repr, Option.getD_some]

/-- The text of a number is read as the decimal it writes. -/
theorem read?_text (plus : Bool) {n : Number} (h : n.Proper) :
    Written.read? (n.text plus) = some n.written := by
  obtain ⟨negative, whole, fraction, exponent⟩ := n
  have hends := ends_exponentText plus exponent ends_nil
  have hsign : Written.sign (text plus ⟨negative, whole, fraction, exponent⟩) =
      (negative, whole ++ (fractionText fraction ++ exponentText plus exponent)) := by
    obtain ⟨c, digits, rfl⟩ := List.exists_cons_of_ne_nil h.whole_ne
    have hc := h.whole c List.mem_cons_self
    cases negative with
    | true => rfl
    | false =>
      change Written.sign (c :: _) = _
      unfold Written.sign
      split
      · rename_i heq
        rw [(List.cons.inj heq).1] at hc
        exact absurd hc (by decide)
      · rename_i heq
        rw [(List.cons.inj heq).1] at hc
        exact absurd hc (by decide)
      · rfl
  obtain ⟨htake, hdrop⟩ := span_digits h.whole
    (ends_fractionText plus ⟨negative, whole, fraction, exponent⟩ ends_nil)
  simp only [List.append_nil] at htake hdrop hends
  have hempty : whole.isEmpty = false := by simpa using h.whole_ne
  rw [Written.read?, hsign]
  simp only [htake, hdrop, hempty]
  cases fraction with
  | none =>
    have hdot (tail : List Char) : exponentText plus exponent ≠ '.' :: tail := by
      intro heq
      exact (hends '.' (by simp [heq])).2 rfl
    rw [fractionText, List.nil_append]
    split
    · exact absurd ‹_› (hdot _)
    · simp [exponent?_written, written]
  | some digits =>
    obtain ⟨htake, hdrop⟩ := span_digits (h.fraction digits rfl) fun c hc => (hends c hc).1
    simp [fractionText, htake, hdrop, exponent?_written, written]

/-! ### Integers -/

/-- The number of an integer. -/
def ofInteger : Int → Number
  | .ofNat n => ⟨false, (Nat.repr n).toList, none, none⟩
  | .negSucc n => ⟨true, (Nat.repr (n + 1)).toList, none, none⟩

/-- The digits of a number are proper as its whole. -/
theorem proper_repr (negative : Bool) (n : Nat) :
    Proper ⟨negative, (Nat.repr n).toList, none, none⟩ := by
  obtain ⟨c, digits, hrepr, -⟩ := repr_spec n
  refine .bare negative none (by simp [hrepr]) (fun c => isDigit_of_mem_repr) fun hzero => ?_
  cases n with
  | zero => rfl
  | succ n => exact absurd hzero (head_repr_ne_zero (Nat.succ_pos n))

theorem proper_ofInteger (n : Int) : (ofInteger n).Proper := by
  cases n with
  | ofNat n => exact proper_repr false n
  | negSucc n => exact proper_repr true (n + 1)

theorem text_ofInteger (plus : Bool) (n : Int) : (ofInteger n).text plus = (toString n).toList := by
  cases n with
  | ofNat n =>
    change (Nat.repr n).toList ++ [] = (Nat.repr n).toList
    exact List.append_nil _
  | negSucc n =>
    change '-' :: ((Nat.repr (n + 1)).toList ++ []) = ("-" ++ Nat.repr (n + 1)).toList
    rw [List.append_nil, String.toList_append]
    rfl

/-- An integer within 64 bits keeps its value. -/
theorem value?_ofInteger {n : Int} (h : Width.signed 64 n = true) :
    (ofInteger n).value? = some (Tree.integerData n) := by
  cases n with
  | ofNat n =>
    have hwidth := Width.unsigned_of_signed h
    simp only [ofInteger, value?, digitsValue_repr, hwidth]
    rfl
  | negSucc n =>
    have hsigned : Width.signed 64 (-((n + 1 : Nat) : Int)) = true := h
    have hwidth := Width.unsigned_of_signed_neg hsigned
    have hpos : decide (0 < n + 1) = true := decide_eq_true (Nat.succ_pos n)
    simp only [ofInteger, value?, digitsValue_repr, hwidth, hsigned, hpos]
    rfl

end Json.Number

/-! ### Layouts -/

namespace NumberFormat

open Json (Number)

/-- Digits with the point behind the first `places` of them, as a number. -/
def plainNumber (negative : Bool) (digits : List Char) (places : Int) : Number :=
  if places ≤ 0 then
    ⟨negative, ['0'], some (List.replicate (-places).toNat '0' ++ digits), none⟩
  else
    let whole := places.toNat
    if digits.length ≤ whole then
      ⟨negative, digits ++ List.replicate (whole - digits.length) '0', some ['0'], none⟩
    else ⟨negative, digits.take whole, some (digits.drop whole), none⟩

/-- Digits with one before the point, as a number. -/
def scientificNumber (negative : Bool) (digits : List Char) (exponent : Int) : Number :=
  ⟨negative, digits.take 1, if digits.length ≤ 1 then none else some (digits.drop 1), some exponent⟩

/-- The number that a format lays out. -/
def number (format : NumberFormat) (negative : Bool) (d : Decimal) : Number :=
  if d.digits = 0 then ⟨negative, ['0'], some ['0'], none⟩
  else
    let digits := (Nat.repr d.digits).toList
    let exponent := d.exponent + digits.length - 1
    if format.plainFrom ≤ exponent ∧ exponent < format.plainBelow then
      plainNumber negative digits (exponent + 1)
    else scientificNumber negative digits exponent

theorem plain_eq (plus negative : Bool) (digits : List Char) (places : Int) :
    plain digits places = (plainNumber negative digits places).sizeText plus := by
  unfold plain plainNumber
  split
  · simp [Number.sizeText, Number.fractionText, Number.exponentText]
  · simp only []
    split
    · simp [Number.sizeText, Number.fractionText, Number.exponentText]
    · simp [Number.sizeText, Number.fractionText, Number.exponentText]

theorem scientific_eq (format : NumberFormat) (negative : Bool) (digits : List Char)
    (exponent : Int) :
    format.scientific digits exponent =
      (scientificNumber negative digits exponent).sizeText format.exponentPlus := by
  unfold scientific scientificNumber
  simp only [Number.sizeText, Number.exponentText]
  split <;> simp [Number.fractionText]

/-- What a format lays out is the text of a number. -/
theorem layout_eq (format : NumberFormat) (negative : Bool) (d : Decimal) :
    format.layout d = (format.number negative d).sizeText format.exponentPlus := by
  unfold layout number
  split
  · rfl
  · simp only []
    split
    · exact plain_eq _ negative _ _
    · exact scientific_eq format negative _ _

theorem number_negative (format : NumberFormat) (negative : Bool) (d : Decimal) :
    (format.number negative d).negative = negative := by
  unfold number
  split
  · rfl
  simp only []
  split
  · unfold plainNumber
    split
    · rfl
    simp only []
    split <;> rfl
  · rfl

theorem proper_plainNumber (negative : Bool) {digits : List Char} (hne : digits ≠ [])
    (hdigits : ∀ c ∈ digits, c.isDigit = true) (hzero : digits.head? ≠ some '0') (places : Int) :
    (plainNumber negative digits places).Proper := by
  have hzeros (k : Nat) : ∀ c ∈ List.replicate k '0', c.isDigit = true := by
    intro c hc
    rw [List.eq_of_mem_replicate hc]
    rfl
  unfold plainNumber
  split
  · exact .point negative none (List.cons_ne_nil _ _) (List.forall_mem_singleton.mpr rfl)
      (fun _ => rfl) (by simp [hne]) (List.forall_mem_append.mpr ⟨hzeros _, hdigits⟩)
  rename_i hplaces
  have hwhole : places.toNat ≠ 0 := by omega
  simp only []
  split
  · refine .point negative none (by simp [hne]) (List.forall_mem_append.mpr ⟨hdigits, hzeros _⟩)
      (fun h => ?_) (List.cons_ne_nil _ _) (List.forall_mem_singleton.mpr rfl)
    rw [List.head?_append_of_ne_nil _ hne] at h
    exact absurd h hzero
  · rename_i hlength
    refine .point negative none (by simp [hne, hwhole])
      (fun c hc => hdigits c (List.mem_of_mem_take hc)) (fun h => ?_) ?_
      fun c hc => hdigits c (List.mem_of_mem_drop hc)
    · rw [List.head?_take, if_neg hwhole] at h
      exact absurd h hzero
    · intro hdrop
      exact hlength (List.drop_eq_nil_iff.mp hdrop)

theorem proper_scientificNumber (negative : Bool) {digits : List Char} (hne : digits ≠ [])
    (hdigits : ∀ c ∈ digits, c.isDigit = true) (exponent : Int) :
    (scientificNumber negative digits exponent).Proper := by
  obtain ⟨c, rest, rfl⟩ := List.exists_cons_of_ne_nil hne
  obtain ⟨hc, hrest⟩ := List.forall_mem_cons.mp hdigits
  have hwhole : ∀ x ∈ [c], x.isDigit = true := List.forall_mem_singleton.mpr hc
  cases rest with
  | nil =>
    exact .bare negative (some exponent) (List.cons_ne_nil _ _) hwhole fun _ => rfl
  | cons d rest =>
    exact .point negative (some exponent) (List.cons_ne_nil _ _) hwhole (fun _ => rfl)
      (List.cons_ne_nil _ _) hrest

theorem proper_number (format : NumberFormat) (negative : Bool) (d : Decimal) :
    (format.number negative d).Proper := by
  unfold number
  split
  · have hdigit : ∀ c ∈ ['0'], c.isDigit = true := List.forall_mem_singleton.mpr rfl
    exact .point negative none (List.cons_ne_nil _ _) hdigit (fun _ => rfl) (List.cons_ne_nil _ _)
      hdigit
  rename_i hzero
  obtain ⟨c, rest, hrepr, -⟩ := repr_spec d.digits
  have hne : (Nat.repr d.digits).toList ≠ [] := by simp [hrepr]
  have hdigits : ∀ c ∈ (Nat.repr d.digits).toList, c.isDigit = true := fun c => isDigit_of_mem_repr
  simp only []
  split
  · exact proper_plainNumber negative hne hdigits (head_repr_ne_zero (Nat.pos_of_ne_zero hzero)) _
  · exact proper_scientificNumber negative hne hdigits _

/-! ### Floating-point numbers -/

/-- Whether the sign of a floating-point number is set. -/
def isNegative (x : Float) : Bool := !Width.unsigned 63 x.toBits.toNat

/-- The number that a format writes for a finite floating-point number. -/
def floatNumber (format : NumberFormat) (x : Float) : Number :=
  format.number (isNegative x) (.shortest (.ofFloat x))

theorem render_nan (format : NumberFormat) {x : Float} (h : x.isNaN = true) :
    format.render x = format.nan := if_pos h

theorem render_infinite (format : NumberFormat) {x : Float} (hnan : x.isNaN = false)
    (hinf : x.isInf = true) :
    format.render x = if isNegative x then format.negativeInfinity else format.infinity := by
  rw [render, hnan, if_neg Bool.false_ne_true, hinf]
  rfl

theorem render_finite (format : NumberFormat) {x : Float} (hnan : x.isNaN = false)
    (hinf : x.isInf = false) :
    (format.render x).toList = (format.floatNumber x).text format.exponentPlus := by
  have hlayout := format.layout_eq (isNegative x) (.shortest (.ofFloat x))
  have hsign : (format.floatNumber x).negative = isNegative x := number_negative _ _ _
  rw [render, hnan, if_neg Bool.false_ne_true, hinf]
  simp only [Bool.false_eq_true, if_false, String.toList_ofList]
  rw [Number.text, hsign, floatNumber, ← hlayout]
  rfl

end NumberFormat

end CollectorTemplate
