/-
What YAML texts denote.

A YAML text denotes the data of its document by the meaning of each scalar, where a floating-point
number counts by what its text writes.  What is written of a tree denotes what the tree stands for,
without exception: YAML has texts for infinities and for what is no number.

* `Scalar.resolve_number` : the text of a number with a fraction or an exponent means a number;
* `Scalar.denoted_leaf` : a scalar denotes the leaf it was written for;
* `Yaml.denoted?` : the data that a text denotes;
* `Yaml.denoted?_write` : those of a written tree.
-/
import CollectorTemplate.Proofs.Decimal.Shortest
import CollectorTemplate.Proofs.Denoted
import CollectorTemplate.Proofs.Yaml.Data

namespace CollectorTemplate.Yaml

namespace Scalar

/-! ### Floating-point numbers -/

open Decimal
open Json (Number)

/-- What is read as a decimal is none of the words that are not. -/
theorem not_word {text : List Char} {w : Written} (h : Written.read? text = some w)
    {words : List String} (hwords : ∀ word ∈ words, Written.read? word.toList = none) :
    words.any (·.toList == text) = false := by
  refine List.any_eq_false.mpr fun word hword heq => ?_
  rw [← beq_iff_eq.mp heq, hwords word hword] at h
  nomatch h

/-- A decimal that is no integer means a number within the finite range, and a string beyond. -/
theorem resolve_of_read? {text : List Char} {w : Written} (h : Written.read? text = some w)
    (hinteger : integer? text = none) (hzero : isLeadingZero text = false) :
    resolve text = if w.toFloat.isFinite then .float w.toFloat else .string := by
  have hempty : text.isEmpty = false := by
    cases text with
    | nil => nomatch h
    | cons c text => rfl
  -- Whatever is looked for before floating-point numbers is either a word or an integer.
  have hnull : isNull text = false := not_word h (by decide)
  have hbool : bool? text = none := by
    rw [bool?, not_word h (by decide), not_word h (by decide)]
    rfl
  have hspecial : special? text = none := by
    rw [special?, not_word h (by decide), not_word h (by decide), not_word h (by decide)]
    rfl
  have hfloat : float? text = if w.toFloat.isFinite then some w.toFloat else none := by
    rw [float?, hspecial, h]
    rfl
  simp only [resolve, hempty, hnull, hbool, hinteger, hzero, hfloat, Bool.or_self,
    Bool.false_eq_true, if_false]
  by_cases hfinite : w.toFloat.isFinite = true
  · simp only [hfinite, if_true]
  · simp only [hfinite, Bool.false_eq_true, if_false]

/-- A character that stands for no decimal digit. -/
def IsMark (c : Char) : Prop := c = '.' ∨ c = 'e'

theorem IsMark.not_isDigit {c : Char} (h : IsMark c) : c.isDigit = false := by
  rcases h with rfl | rfl <;> rfl

theorem IsMark.ten_le {c : Char} (h : IsMark c) : ∀ v ∈ Text.hexDigit? c, 10 ≤ v := by
  rcases h with rfl | rfl <;> decide

section

variable {n : Number} (hproper : n.Proper)
  (hreal : (n.fraction.isSome || n.exponent.isSome) = true)

include hproper hreal

/-- Digits come first, and a point or an exponent after them. -/
theorem sizeText_spec : ∃ c tail, n.sizeText false = c :: tail ∧ c.isDigit = true ∧
    (∃ d ∈ tail, IsMark d) ∧ ∃ d ∈ tail.head?, d.isDigit = true ∨ IsMark d := by
  obtain ⟨negative, whole, fraction, exponent⟩ := n
  obtain ⟨c, digits, rfl⟩ := List.exists_cons_of_ne_nil hproper.whole_ne
  obtain ⟨hc, hdigits⟩ := List.forall_mem_cons.mp hproper.whole
  obtain ⟨d, tail, htail, hd⟩ : ∃ d tail,
      Number.fractionText fraction ++ Number.exponentText false exponent = d :: tail ∧
        IsMark d := by
    cases fraction with
    | some digits => exact ⟨'.', _, rfl, .inl rfl⟩
    | none =>
      cases exponent with
      | some e => exact ⟨'e', _, rfl, .inr rfl⟩
      | none => nomatch hreal
  refine ⟨c, digits ++ d :: tail, congrArg (c :: digits ++ ·) htail, hc, ⟨d, by simp, hd⟩, ?_⟩
  cases digits with
  | nil => exact ⟨d, rfl, .inr hd⟩
  | cons e digits => exact ⟨e, rfl, .inl (hdigits e List.mem_cons_self)⟩

theorem magnitude?_sizeText : magnitude? (n.sizeText false) = none := by
  obtain ⟨c, tail, htext, hc, ⟨d, hd, hmark⟩, e, he, hsecond⟩ := sizeText_spec hproper hreal
  -- The letter of a radix would be the second character, which is a digit, a point or an `e`.
  have hletter {l : Char} {rest : List Char} (htail : tail = l :: rest) :
      l ≠ 'x' ∧ l ≠ 'o' ∧ l ≠ 'b' := by
    obtain rfl : l = e := Option.some.inj ((congrArg List.head? htail).symm.trans he)
    refine ⟨?_, ?_, ?_⟩ <;> rintro rfl <;>
      exact absurd hsecond (by unfold IsMark; decide)
  have hradix : Text.radixMark? (c :: tail) = none := by
    unfold Text.radixMark?
    split
    · rename_i heq
      exact absurd rfl (hletter (List.cons.inj heq).2).1
    · rename_i heq
      exact absurd rfl (hletter (List.cons.inj heq).2).2.1
    · rename_i heq
      exact absurd rfl (hletter (List.cons.inj heq).2).2.2
    · rfl
  rw [htext, magnitude?, hradix]
  exact Text.radixValue?_eq_none (List.mem_cons_of_mem _ hd) hmark.ten_le

theorem isLeadingZero_sizeText :
    isLeadingZero (n.sizeText false) = false ∧ isLeadingZero ('-' :: n.sizeText false) = false := by
  obtain ⟨c, tail, htext, hc, ⟨d, hd, hmark⟩, -⟩ := sizeText_spec hproper hreal
  have hdash : isLeadingZero ('-' :: n.sizeText false) = false := by
    rw [htext]
    unfold isLeadingZero
    dsimp only
    split
    · rename_i heq
      rw [(List.cons.inj heq).2] at hd
      refine List.all_eq_false.mpr ⟨d, hd, ?_⟩
      rw [hmark.not_isDigit]
      exact Bool.false_ne_true
    · rfl
  refine ⟨?_, hdash⟩
  have hsign : ∀ rest, n.sizeText false ≠ '-' :: rest ∧ n.sizeText false ≠ '+' :: rest := by
    intro rest
    rw [htext]
    constructor <;>
    · intro heq
      rw [(List.cons.inj heq).1] at hc
      exact absurd hc (by decide)
  unfold isLeadingZero
  split
  · exact absurd ‹_› (hsign _).1
  · exact absurd ‹_› (hsign _).2
  · exact hdash

/-- A number with a fraction or an exponent is no integer. -/
theorem not_integer_text :
    integer? (n.text false) = none ∧ isLeadingZero (n.text false) = false := by
  obtain ⟨hzero, hdashZero⟩ := isLeadingZero_sizeText hproper hreal
  have hmagnitude := magnitude?_sizeText hproper hreal
  obtain ⟨c, tail, htext, hc, -⟩ := sizeText_spec hproper hreal
  rw [Number.text]
  cases n.negative with
  | true =>
    have hnegative (bits : Nat) : negative? bits ('-' :: n.sizeText false) = none := by
      rw [negative?, hdashZero, hmagnitude]
      rfl
    refine ⟨?_, hdashZero⟩
    simp only [if_true, integer?, natural?_dash, hnegative]
    rfl
  | false =>
    have hnatural (bits : Nat) : natural? bits (n.sizeText false) = none := by
      unfold natural?
      split
      · rename_i heq
        rw [htext] at heq
        rw [(List.cons.inj heq).1] at hc
        exact absurd hc (by decide)
      · simp only [hzero, hmagnitude, Bool.false_eq_true, if_false, Option.filter_none]
    have hnegative (bits : Nat) : negative? bits (n.sizeText false) = none := by
      unfold negative?
      split
      · rename_i heq
        rw [htext] at heq
        rw [(List.cons.inj heq).1] at hc
        exact absurd hc (by decide)
      · rfl
    refine ⟨?_, hzero⟩
    simp only [Bool.false_eq_true, if_false, integer?, hnatural, hnegative]
    rfl

/-- The text of a number with a fraction or an exponent means the number. -/
theorem resolve_number (hfinite : n.written.toFloat.isFinite = true) :
    resolve (n.text false) = .float n.written.toFloat := by
  obtain ⟨hinteger, hzero⟩ := not_integer_text hproper hreal
  rw [resolve_of_read? (Number.read?_text false hproper) hinteger hzero, if_pos hfinite]

end

/-! ### Scalars -/

/-- The texts of what has no value. -/
def nonFinite? (text : List Char) : Option NonFinite :=
  if [".inf", ".Inf", ".INF", "+.inf", "+.Inf", "+.INF"].any (·.toList == text) then
    some .infinity
  else if ["-.inf", "-.Inf", "-.INF"].any (·.toList == text) then some .negativeInfinity
  else if [".nan", ".NaN", ".NAN"].any (·.toList == text) then some .nan
  else none

/-- What a scalar denotes.  A floating-point number counts by its text, whatever number of the
format is nearest. -/
def denoted (style : Style) (text : List Char) : Denoted :=
  match if style = .plain then resolve text else .string with
  | .null => .null
  | .bool b => .bool b
  | .natural n => .integer n
  | .negative n => .integer n
  | .float _ =>
    match nonFinite? text, Written.read? text with
    | some value, _ => .nonFinite value
    | none, some w => .real w.value
    | none, none => .string (String.ofList text)
  | .string => .string (String.ofList text)

theorem denoted_integer {n : Int} (h : Width.signed 64 n = true) :
    denoted .plain (toString n).toList = .integer n := by
  rw [denoted, if_pos rfl, resolve_integer h]
  cases n <;> rfl

theorem denoted_string (s : String) : denoted (styleOf s.toList) s.toList = .string s := by
  have hmeaning : (if styleOf s.toList = .plain then resolve s.toList else .string) = .string := by
    split
    · exact resolve_of_styleOf ‹_›
    · rfl
  rw [denoted, hmeaning]
  exact congrArg Denoted.string String.ofList_toList

/-- The text of a floating-point number denotes the number, and that of an infinity or of no number
what has no value. -/
theorem denoted_float (x : Float) :
    denoted .plain (number.render x).toList = floatDenoted x := by
  cases hnan : x.isNaN with
  | true =>
    rw [number.render_nan hnan, floatDenoted, hnan]
    rfl
  | false =>
    cases hinf : x.isInf with
    | true =>
      rw [number.render_infinite hnan hinf, floatDenoted, hnan, hinf]
      cases NumberFormat.isNegative x <;> rfl
    | false =>
      have hproper : (number.floatNumber x).Proper := number.proper_number _ _
      have hread := Number.read?_text false hproper
      have hresolve := resolve_number hproper (number.number_isReal _ _)
        (number.isFinite_floatNumber hnan hinf)
      have hspecial : nonFinite? ((number.floatNumber x).text false) = none := by
        rw [nonFinite?, not_word hread (by decide), not_word hread (by decide),
          not_word hread (by decide)]
        rfl
      rw [number.render_finite hnan hinf, floatDenoted_finite number hnan hinf]
      change denoted .plain ((number.floatNumber x).text false) = _
      rw [denoted, if_pos rfl, hresolve]
      simp only [hspecial, hread]

/-- A scalar denotes the leaf it was written for. -/
theorem denoted_leaf {tree : Tree} (hvalid : tree.Valid) {style : Style} {text : List Char}
    (h : leaf? tree = some (style, text)) : denoted style text = tree.denoted := by
  cases hvalid with
  | sequence | mapping => nomatch h
  | null => obtain ⟨rfl, rfl⟩ := Prod.mk.inj (Option.some.inj h); rfl
  | bool b => obtain ⟨rfl, rfl⟩ := Prod.mk.inj (Option.some.inj h); cases b <;> rfl
  | string s =>
    obtain ⟨rfl, rfl⟩ := Prod.mk.inj (Option.some.inj h)
    exact denoted_string s
  | integer hn =>
    obtain ⟨rfl, rfl⟩ := Prod.mk.inj (Option.some.inj h)
    exact denoted_integer hn
  | float x =>
    obtain ⟨rfl, rfl⟩ := Prod.mk.inj (Option.some.inj h)
    exact denoted_float x

end Scalar

/-! ### Documents -/

namespace Node

/-- The text that a key denotes; other data are no key. -/
def keyDenoted? : Node → Option String
  | .scalar _ none style text =>
    match Scalar.denoted style text with
    | .string key => some key
    | _ => none
  | _ => none

mutual

/-- What a node denotes.  Tags and aliases are left out. -/
def denoted? : Node → Option Denoted
  | .scalar _ none style text => some (Scalar.denoted style text)
  | .sequence _ none items => (itemsDenoted? items).map .sequence
  | .mapping _ none entries => (entriesDenoted? entries).map .mapping
  | _ => none

def itemsDenoted? : List Node → Option (List Denoted)
  | [] => some []
  | item :: rest => do return (← item.denoted?) :: (← itemsDenoted? rest)

def entriesDenoted? : List (Node × Node) → Option (List (String × Denoted))
  | [] => some []
  | (key, value) :: rest => do
    return ((← key.keyDenoted?), (← value.denoted?)) :: (← entriesDenoted? rest)

end

/-- The items of a sequence denote what the items of the tree stand for. -/
theorem itemsDenoted?_of_represents {nodes : List Node} {items : List Tree}
    (hdenoted : ∀ item ∈ items, ∀ node, Represents node item → node.denoted? = some item.denoted)
    (h : RepresentsItems nodes items) : itemsDenoted? nodes = some (Tree.itemsDenoted items) := by
  induction items generalizing nodes with
  | nil => cases h; rfl
  | cons item items ih =>
    obtain ⟨hitem, hitems⟩ := List.forall_mem_cons.mp hdenoted
    cases h with
    | cons head tail =>
      rw [itemsDenoted?, hitem _ head, ih hitems tail]
      rfl

theorem entriesDenoted?_of_represents {nodes : List (Node × Node)}
    {entries : List (String × Tree)}
    (hdenoted : ∀ entry ∈ entries, ∀ node, Represents node entry.2 →
      node.denoted? = some entry.2.denoted)
    (h : RepresentsEntries nodes entries) :
    entriesDenoted? nodes = some (Tree.entriesDenoted entries) := by
  induction entries generalizing nodes with
  | nil => cases h; rfl
  | cons entry entries ih =>
    obtain ⟨key, value⟩ := entry
    obtain ⟨hvalue, hvalues⟩ := List.forall_mem_cons.mp hdenoted
    cases h with
    | cons place head tail =>
      have hkey : keyDenoted? (.scalar place none (Scalar.styleOf key.toList) key.toList) =
          some key := by
        rw [keyDenoted?, Scalar.denoted_string]
      rw [entriesDenoted?, hkey, hvalue _ head, ih hvalues tail]
      rfl

/-- A node denotes what the tree stands for that it was written for. -/
theorem denoted?_of_represents {tree : Tree} (hvalid : tree.Valid) :
    ∀ {node : Node}, node.Represents tree → node.denoted? = some tree.denoted := by
  induction tree using Tree.induction with
  | sequence items ih =>
    intro node h
    cases hvalid with
    | sequence hvalid =>
      cases h with
      | leaf place h => nomatch h
      | sequence place h =>
        rw [denoted?, itemsDenoted?_of_represents
          (fun item hitem node => ih item hitem (hvalid item hitem)) h]
        rfl
  | mapping entries ih =>
    intro node h
    cases hvalid with
    | mapping hsorted hvalid =>
      cases h with
      | leaf place h => nomatch h
      | mapping place h =>
        rw [denoted?, entriesDenoted?_of_represents
          (fun entry hentry node => ih entry hentry (hvalid entry hentry)) h]
        rfl
  | _ =>
    intro node h
    cases h with
    | leaf place h => exact congrArg some (Scalar.denoted_leaf hvalid h)

end Node

/-- The data that a text denotes, none if it is not one document, or one with tags or aliases. -/
def denoted? (text : String) : Option Denoted :=
  let d := Document.ofString text
  if d.tail.isNone && !d.more then d.root.bind (·.denoted?) else none

/-- What is written of a tree denotes the tree. -/
theorem denoted?_write {tree : Tree} (hvalid : tree.Valid) :
    denoted? (write tree) = some tree.denoted := by
  obtain ⟨root, size, hroot, hdocument⟩ := Document.ofString_write tree
  rw [denoted?, hdocument]
  exact Node.denoted?_of_represents hvalid hroot

end CollectorTemplate.Yaml
