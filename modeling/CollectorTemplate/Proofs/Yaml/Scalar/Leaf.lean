/-
Numbers, booleans and null as plain scalars.

Their texts consist of letters, digits, points and signs, and begin like a word, so that a plain
scalar can hold them.

* `Scalar.plainHolds_of_isWordText` : what such a text is;
* `Scalar.leaf?` : the scalar that a tree without items or entries is written as.
-/
import CollectorTemplate.Proofs.Digits
import CollectorTemplate.Proofs.Yaml.Scalar.Written
import CollectorTemplate.Yaml.Writer

namespace CollectorTemplate.Yaml.Scalar

/-! ### Words -/

/-- The characters of written numbers, booleans and null. -/
def isPlainChar (c : Char) : Bool := c.isAlphanum || c == '.' || c == '-' || c == '+'

theorem toNat_lt_of_isPlainChar {c : Char} (h : isPlainChar c = true) : c.toNat < 128 := by
  have hbelow {high : UInt32} (h : c.val ≤ high) (hhigh : high.toNat < 128) : c.toNat < 128 :=
    Nat.lt_of_le_of_lt (UInt32.le_iff_toNat_le.mp h) hhigh
  simp only [isPlainChar, Bool.or_eq_true, beq_iff_eq] at h
  rcases h with ((h | rfl) | rfl) | rfl
  · rcases Bool.or_eq_true_iff.mp h with h | h
    · rcases Bool.or_eq_true_iff.mp h with h | h
      · have h : decide (c.val ≥ 'A'.val ∧ c.val ≤ 'Z'.val) = true := h
        exact hbelow (of_decide_eq_true h).2 (by decide)
      · exact hbelow (of_decide_eq_true (Bool.and_eq_true_iff.mp h).2) (by decide)
    · exact hbelow (of_decide_eq_true (Bool.and_eq_true_iff.mp h).2) (by decide)
  · decide
  · decide
  · decide

theorem isPlainChar_spec {c : Char} (h : isPlainChar c = true) :
    isPrintable c = true ∧ isSpacing c = false ∧ isOpening c = false ∧ c ≠ ':' ∧ c ≠ '?' := by
  have hall : ∀ n < 128, isPlainChar (Char.ofNat n) = true →
      isPrintable (Char.ofNat n) = true ∧ isSpacing (Char.ofNat n) = false ∧
        isOpening (Char.ofNat n) = false ∧ Char.ofNat n ≠ ':' ∧ Char.ofNat n ≠ '?' := by
    decide +kernel
  have hc := hall c.toNat (toNat_lt_of_isPlainChar h)
  rw [Char.ofNat_toNat] at hc
  exact hc h

/-- Whether a text is made of these characters, and no marker or item begins with it. -/
def isWordText : List Char → Bool
  | [] => false
  | c :: rest =>
    (c :: rest).all isPlainChar &&
      (!(c == '-' || c == '.') || rest.head?.any fun d => d != c)

theorem endsEarly_of_isPlainChar {text : List Char} (h : ∀ c ∈ text, isPlainChar c = true)
    (before : Char) : endsEarly before text = false := by
  induction text generalizing before with
  | nil => rfl
  | cons c text ih =>
    obtain ⟨hc, htext⟩ := List.forall_mem_cons.mp h
    obtain ⟨-, -, hopening, hcolon, -⟩ := isPlainChar_spec hc
    have hsharp : c ≠ '#' := ne_of_isOpening hopening '#' (by simp)
    simp [endsEarly, ih htext, hcolon, hsharp]

theorem fits_of_isWordText {text : List Char} (h : isWordText text = true) : Fits .plain text := by
  cases text with
  | nil => cases h
  | cons c rest =>
    refine ⟨?_, List.cons_ne_nil c rest⟩
    simp only [isWordText, Bool.and_eq_true, List.all_eq_true, Bool.or_eq_true,
      Bool.not_eq_true', Bool.or_eq_false_iff, beq_eq_false_iff_ne] at h
    obtain ⟨hall, hhead⟩ := h
    have hspacing (d : Char) (hd : d ∈ c :: rest) : d ≠ ' ' ∧ isBreak d = false := by
      obtain ⟨-, hspacing, -⟩ := isPlainChar_spec (hall d hd)
      simp only [isSpacing, isBlank, Bool.or_eq_false_iff, beq_eq_false_iff_ne] at hspacing
      exact ⟨hspacing.1.1, hspacing.2⟩
    obtain ⟨-, -, hopening, hcolon, hquestion⟩ := isPlainChar_spec (hall c List.mem_cons_self)
    have hloose : hasLooseEnd (c :: rest) = false := by
      have hopt (o : Option Char) (ho : ∀ d ∈ o, d ∈ c :: rest) :
          (o.any fun d => d == ' ' || isBreak d) = false := by
        cases o with
        | none => rfl
        | some d => simpa using hspacing d (ho d rfl)
      exact Bool.or_eq_false_iff.mpr
        ⟨hopt _ fun d hd => List.mem_of_head? hd, hopt _ fun d hd => List.mem_of_getLast? hd⟩
    have hindicator : hasIndicator (c :: rest) = false := by
      have hends := endsEarly_of_isPlainChar (fun d hd => hall d (List.mem_cons_of_mem c hd)) c
      rcases hhead with ⟨hdash, hdot⟩ | hnext
      · simp [hasIndicator, List.isPrefixOf, opensOther, hends, hopening, hcolon, hquestion, hdash,
          Ne.symm hdash, Ne.symm hdot]
      · cases rest with
        | nil => cases hnext
        | cons d rest =>
          have hd := (isPlainChar_spec (hall d (by simp))).2.1
          have hnext : d ≠ c := by simpa using hnext
          have hmark (e : Char) : [e, e, e].isPrefixOf (c :: d :: rest) = false := by
            rw [← Bool.not_eq_true]
            intro h
            simp only [List.isPrefixOf, Bool.and_eq_true, beq_iff_eq] at h
            exact hnext (h.2.1.symm.trans h.1)
          have hdashes := hmark '-'
          have hdots := hmark '.'
          simp [hasIndicator, hdashes, hdots, opensOther, hends, hopening, gapAhead, hd]
    have hprint : (c :: rest).all isPrintable = true :=
      List.all_eq_true.mpr fun d hd => (isPlainChar_spec (hall d hd)).1
    have hbreak : (c :: rest).any isBreak = false :=
      List.any_eq_false.mpr fun d hd => by simp [(hspacing d hd).2]
    rw [plainHolds, hprint, hbreak, hloose, hindicator]
    rfl

/-! ### Leaves -/

theorem isPlainChar_of_isDigit {c : Char} (h : c.isDigit = true) : isPlainChar c = true := by
  simp [isPlainChar, Char.isAlphanum, h]

/-- A number begins with a digit, perhaps behind a minus sign. -/
theorem isWordText_of_digit {c : Char} {rest : List Char} (negative : Bool) (hc : c.isDigit = true)
    (hrest : ∀ x ∈ rest, isPlainChar x = true) :
    isWordText (if negative then '-' :: c :: rest else c :: rest) = true := by
  have hplain := isPlainChar_of_isDigit hc
  have hdash : c ≠ '-' := by
    rintro rfl
    nomatch hc
  have hdot : c ≠ '.' := by
    rintro rfl
    nomatch hc
  have hminus : isPlainChar '-' = true := rfl
  cases negative with
  | true => simpa [isWordText, hminus, hplain, hdash] using hrest
  | false => simpa [isWordText, hplain, hdash, hdot] using hrest

theorem isWordText_integer (n : Int) : isWordText (toString n).toList = true := by
  cases n with
  | ofNat n =>
    obtain ⟨c, rest, h, hdigits⟩ := repr_spec n
    obtain ⟨hc, hrest⟩ := List.forall_mem_cons.mp hdigits
    change isWordText (Nat.repr n).toList = true
    rw [h]
    exact isWordText_of_digit false hc fun x hx => isPlainChar_of_isDigit (hrest x hx)
  | negSucc n =>
    obtain ⟨c, rest, h, hdigits⟩ := repr_spec (n + 1)
    obtain ⟨hc, hrest⟩ := List.forall_mem_cons.mp hdigits
    change isWordText ("-" ++ Nat.repr (n + 1)).toList = true
    rw [String.toList_append, h]
    exact isWordText_of_digit true hc fun x hx => isPlainChar_of_isDigit (hrest x hx)

theorem isPlainChar_of_mem_replicate {k : Nat} :
    ∀ x ∈ List.replicate k '0', isPlainChar x = true := by
  intro x hx
  rw [List.eq_of_mem_replicate hx]
  rfl

/-- Digits with a point begin with a digit. -/
theorem plain_spec {c : Char} {rest : List Char} (h : ∀ x ∈ c :: rest, x.isDigit = true)
    (places : Int) :
    ∃ d text, NumberFormat.plain (c :: rest) places = d :: text ∧ d.isDigit = true ∧
      ∀ x ∈ text, isPlainChar x = true := by
  have hplain : ∀ x ∈ c :: rest, isPlainChar x = true := fun x hx => isPlainChar_of_isDigit (h x hx)
  have hpoint : isPlainChar '.' = true := rfl
  have hzero : isPlainChar '0' = true := rfl
  unfold NumberFormat.plain
  split
  · refine ⟨'0', _, rfl, rfl, List.forall_mem_cons.mpr ⟨hpoint, fun x hx => ?_⟩⟩
    exact (List.mem_append.mp hx).elim (isPlainChar_of_mem_replicate x) (hplain x)
  · rename_i hplaces
    obtain ⟨whole, hwhole⟩ : ∃ whole, places.toNat = whole + 1 := ⟨places.toNat - 1, by omega⟩
    simp only [hwhole]
    split
    · refine ⟨c, _, rfl, h c List.mem_cons_self, fun x hx => ?_⟩
      rcases List.mem_append.mp hx with hx | hx
      · rcases List.mem_append.mp hx with hx | hx
        · exact hplain x (List.mem_cons_of_mem c hx)
        · exact isPlainChar_of_mem_replicate x hx
      · rcases List.mem_cons.mp hx with rfl | hx
        · exact hpoint
        · rw [List.mem_singleton.mp hx]
          exact hzero
    · refine ⟨c, _, rfl, h c List.mem_cons_self, fun x hx => ?_⟩
      rcases List.mem_append.mp hx with hx | hx
      · exact hplain x (List.mem_cons_of_mem c (List.mem_of_mem_take hx))
      · rcases List.mem_cons.mp hx with rfl | hx
        · exact hpoint
        · exact hplain x (List.mem_of_mem_drop hx)

/-- Digits with an exponent begin with a digit. -/
theorem scientific_spec {c : Char} {rest : List Char} (h : ∀ x ∈ c :: rest, x.isDigit = true)
    (format : NumberFormat) (exponent : Int) :
    ∃ text, format.scientific (c :: rest) exponent = c :: text ∧
      ∀ x ∈ text, isPlainChar x = true := by
  have hplain : ∀ x ∈ c :: rest, isPlainChar x = true := fun x hx => isPlainChar_of_isDigit (h x hx)
  have hsign : ∀ x ∈ (if exponent < 0 then ['-'] else if format.exponentPlus then ['+'] else []),
      isPlainChar x = true := by
    split
    · exact List.forall_mem_singleton.mpr rfl
    · split
      · exact List.forall_mem_singleton.mpr rfl
      · exact fun x hx => nomatch hx
  have hexponent : ∀ x ∈ (Nat.repr exponent.natAbs).toList, isPlainChar x = true := by
    obtain ⟨d, digits, hrepr, hdigits⟩ := repr_spec exponent.natAbs
    rw [hrepr]
    exact fun x hx => isPlainChar_of_isDigit (hdigits x hx)
  have hmantissa : ∀ x ∈ (if (c :: rest).length ≤ 1 then [] else '.' :: rest),
      isPlainChar x = true := by
    split
    · exact fun x hx => nomatch hx
    · exact List.forall_mem_cons.mpr ⟨rfl, (List.forall_mem_cons.mp hplain).2⟩
  refine ⟨_, rfl, fun x hx => ?_⟩
  rcases List.mem_append.mp hx with hx | hx
  · rcases List.mem_append.mp hx with hx | hx
    · exact hmantissa x hx
    · rcases List.mem_cons.mp hx with rfl | hx
      · rfl
      · exact hsign x hx
  · exact hexponent x hx

/-- The layout of a decimal begins with a digit. -/
theorem layout_spec (format : NumberFormat) (d : Decimal) :
    ∃ c rest, format.layout d = c :: rest ∧ c.isDigit = true ∧
      ∀ x ∈ rest, isPlainChar x = true := by
  obtain ⟨c, rest, h, hdigits⟩ := repr_spec d.digits
  unfold NumberFormat.layout
  split
  · exact ⟨'0', ['.', '0'], rfl, rfl,
      List.forall_mem_cons.mpr ⟨rfl, List.forall_mem_singleton.mpr rfl⟩⟩
  · rw [h]
    simp only []
    split
    · exact plain_spec hdigits _
    · obtain ⟨text, htext, hplain⟩ := scientific_spec hdigits format _
      exact ⟨c, text, htext, hdigits c List.mem_cons_self, hplain⟩

theorem isWordText_float (x : Float) : isWordText (number.render x).toList = true := by
  unfold NumberFormat.render
  split
  · rfl
  · simp only []
    split
    · split
      · rfl
      · rfl
    · obtain ⟨c, rest, h, hc, hrest⟩ := layout_spec number (.shortest (.ofFloat x))
      rw [String.toList_ofList, h]
      exact isWordText_of_digit _ hc hrest

/-- The scalar that a tree without items or entries is written as. -/
def leaf? : Tree → Option (Style × List Char)
  | .null => some (.plain, "null".toList)
  | .bool b => some (.plain, (toString b).toList)
  | .integer n => some (.plain, (toString n).toList)
  | .float x => some (.plain, (number.render x).toList)
  | .string s => some (styleOf s.toList, s.toList)
  | .sequence _ | .mapping _ => none

theorem fits_of_leaf? {tree : Tree} {style : Style} {text : List Char}
    (h : leaf? tree = some (style, text)) : Fits style text := by
  cases tree with
  | null => obtain ⟨rfl, rfl⟩ := Prod.mk.inj (Option.some.inj h); exact fits_of_isWordText rfl
  | bool b =>
    obtain ⟨rfl, rfl⟩ := Prod.mk.inj (Option.some.inj h)
    cases b <;> exact fits_of_isWordText rfl
  | integer n =>
    obtain ⟨rfl, rfl⟩ := Prod.mk.inj (Option.some.inj h)
    exact fits_of_isWordText (isWordText_integer n)
  | float x =>
    obtain ⟨rfl, rfl⟩ := Prod.mk.inj (Option.some.inj h)
    exact fits_of_isWordText (isWordText_float x)
  | string s =>
    obtain ⟨rfl, rfl⟩ := Prod.mk.inj (Option.some.inj h)
    exact fits_styleOf s.toList
  | sequence items => nomatch h
  | mapping entries => nomatch h

end CollectorTemplate.Yaml.Scalar
