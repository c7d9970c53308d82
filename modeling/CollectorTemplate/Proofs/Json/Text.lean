/-
JSON texts of trees.

A tree is written on one line or on several; both are layouts, which differ in the white space
between the parts of collections.  What a layout writes is read as the value of the tree.

* `unquote?_quote` : a string is read as it was before it was quoted;
* `Layout.text` : the text of a tree in a layout;
* `value?_text` : it is read as the value of the tree, by induction on the tree;
* `parse?_text`, `parse?_pretty` : whole texts.
-/
import CollectorTemplate.Json.Reader
import CollectorTemplate.Json.Writer
import CollectorTemplate.Proofs.Json.Number

namespace CollectorTemplate

namespace Json

/-! ### White space -/

/-- A text of white space only. -/
def IsGap (gap : List Char) : Prop := ∀ c ∈ gap, isSpace c = true

theorem isGap_nil : IsGap [] := fun _ h => absurd h List.not_mem_nil

theorem skipSpace_append {gap : List Char} (hgap : IsGap gap) (text : List Char) :
    skipSpace (gap ++ text) = skipSpace text := List.dropWhile_append_of_pos hgap

theorem skipSpace_cons {c : Char} (hc : isSpace c = false) (text : List Char) :
    skipSpace (c :: text) = c :: text := List.dropWhile_cons_of_neg (by simp [hc])

theorem skipSpace_skipSpace (text : List Char) : skipSpace (skipSpace text) = skipSpace text := by
  induction text with
  | nil => rfl
  | cons c text ih =>
    by_cases hc : isSpace c = true
    · rw [show skipSpace (c :: text) = skipSpace text from List.dropWhile_cons_of_pos hc, ih]
    · have hc : isSpace c = false := by simpa using hc
      rw [skipSpace_cons hc, skipSpace_cons hc]

/-! ### Strings -/

theorem codeUnit?_controlDigits : ∀ n < 0x20,
    codeUnit? '0' '0' (Nat.digitChar (n / 16)) (Nat.digitChar (n % 16)) = some n := by decide

/-- A character in a string is read as itself. -/
theorem unquote?_quoteChar (c : Char) (rest read : List Char) :
    unquote? (quoteChar c ++ rest) read = unquote? rest (c :: read) := by
  unfold quoteChar
  split
  · rfl
  · rfl
  · rfl
  · rfl
  · rfl
  · rfl
  · rfl
  · rename_i hquote hslash _ _ _ _ _
    split
    · rename_i hcontrol
      have hcode := codeUnit?_controlDigits c.toNat hcontrol
      have htrail : isTrail c.toNat = false := by
        rw [isTrail, Bool.and_eq_false_iff]
        exact .inl (decide_eq_false (by omega))
      have hlead : isLead c.toNat = false := by
        rw [isLead, Bool.and_eq_false_iff]
        exact .inl (decide_eq_false (by omega))
      simp [controlDigits, unquote?, hcode, htrail, hlead, Char.ofNat_toNat]
    · rename_i hcontrol
      have hguard : ¬((c == '\\' || decide (c.toNat < 0x20)) = true) := by
        simp only [Bool.or_eq_true, beq_iff_eq, decide_eq_true_eq, not_or]
        exact ⟨hslash, hcontrol⟩
      rw [List.singleton_append, unquote?]
      · exact if_neg hguard
      · exact hquote
      · exact fun _ _ _ _ _ h _ => hslash h
      · exact fun _ _ h _ => hslash h

/-- A string is read as it was before it was quoted. -/
theorem unquote?_quote (text : String) (rest : List Char) :
    unquote? (text.toList.flatMap quoteChar ++ '"' :: rest) [] = some (text, rest) := by
  have hread (chars read : List Char) : unquote? (chars.flatMap quoteChar ++ '"' :: rest) read =
      some (String.ofList (read.reverse ++ chars), rest) := by
    induction chars generalizing read with
    | nil => simp [unquote?]
    | cons c chars ih =>
      rw [List.flatMap_cons, List.append_assoc, unquote?_quoteChar, ih]
      simp
  rw [hread, List.reverse_nil, List.nil_append, String.ofList_toList]

/-! ### Layouts -/

/-- How the parts of collections are set apart. -/
structure Layout where
  /-- What stands in front of an entry of a collection at a level, and of its end. -/
  gap : Nat → List Char
  /-- What stands behind a colon. -/
  space : List Char
  isGap_gap : ∀ level, IsGap (gap level)
  isGap_space : IsGap space

namespace Layout

/-- All on one line. -/
def flat : Layout := ⟨fun _ => [], [], fun _ => isGap_nil, isGap_nil⟩

theorem isGap_newline (level : Nat) : IsGap (newline level) := by
  refine List.forall_mem_cons.mpr ⟨rfl, fun c hc => ?_⟩
  rw [List.eq_of_mem_replicate hc]
  rfl

/-- Each entry on lines of its own. -/
def broken : Layout := ⟨newline, [' '], isGap_newline, List.forall_mem_singleton.mpr rfl⟩

variable (l : Layout)

mutual

/-- A tree at a level. -/
def text (level : Nat) : Tree → List Char
  | .null => "null".toList
  | .bool b => (toString b).toList
  | .integer n => (toString n).toList
  | .float x => (number.render x).toList
  | .string s => quote s
  | .sequence [] => ['[', ']']
  | .sequence (item :: rest) =>
    '[' :: itemsText (level + 1) (item :: rest) ++ l.gap level ++ [']']
  | .mapping [] => ['{', '}']
  | .mapping (entry :: rest) =>
    '{' :: entriesText (level + 1) (entry :: rest) ++ l.gap level ++ ['}']

def itemsText (level : Nat) : List Tree → List Char
  | [] => []
  | [item] => l.gap level ++ text level item
  | item :: rest => l.gap level ++ text level item ++ ',' :: itemsText level rest

def entriesText (level : Nat) : List (String × Tree) → List Char
  | [] => []
  | [(k, v)] => l.gap level ++ quote k ++ ':' :: (l.space ++ text level v)
  | (k, v) :: rest =>
    l.gap level ++ quote k ++ ':' :: (l.space ++ text level v) ++ ',' :: entriesText level rest

end

theorem itemsText_cons (level : Nat) (item next : Tree) (items : List Tree) :
    l.itemsText level (item :: next :: items) =
      l.gap level ++ l.text level item ++ ',' :: l.itemsText level (next :: items) := rfl

theorem entriesText_cons (level : Nat) (key : String) (value : Tree) (next : String × Tree)
    (entries : List (String × Tree)) :
    l.entriesText level ((key, value) :: next :: entries) =
      l.gap level ++ quote key ++ ':' :: (l.space ++ l.text level value) ++
        ',' :: l.entriesText level (next :: entries) := rfl

/-! ### The two layouts -/

theorem itemsText_flat {items : List Tree} (level : Nat)
    (h : ∀ item ∈ items, flat.text level item = compact item) :
    flat.itemsText level items = compactItems items := by
  induction items with
  | nil => rfl
  | cons item items ih =>
    obtain ⟨hitem, hitems⟩ := List.forall_mem_cons.mp h
    cases items with
    | nil => exact hitem
    | cons next items =>
      rw [itemsText_cons, ih hitems, hitem]
      rfl

theorem entriesText_flat {entries : List (String × Tree)} (level : Nat)
    (h : ∀ entry ∈ entries, flat.text level entry.2 = compact entry.2) :
    flat.entriesText level entries = compactEntries entries := by
  induction entries with
  | nil => rfl
  | cons entry entries ih =>
    obtain ⟨key, value⟩ := entry
    obtain ⟨hvalue, hentries⟩ := List.forall_mem_cons.mp h
    cases entries with
    | nil => exact congrArg (quote key ++ ':' :: ·) hvalue
    | cons next entries =>
      rw [entriesText_cons, ih hentries, hvalue]
      rfl

/-- The layout without gaps is the text on one line. -/
theorem text_flat (tree : Tree) : ∀ level, flat.text level tree = compact tree := by
  induction tree using Tree.induction with
  | sequence items ih =>
    intro level
    have hitems := itemsText_flat (level + 1) fun item hitem => ih item hitem (level + 1)
    cases items with
    | nil => rfl
    | cons item items =>
      rw [text, hitems, compact]
      exact congrArg (· ++ [']']) (List.append_nil _)
  | mapping entries ih =>
    intro level
    have hentries := entriesText_flat (level + 1) fun entry hentry => ih entry hentry (level + 1)
    cases entries with
    | nil => rfl
    | cons entry entries =>
      rw [text, hentries, compact]
      exact congrArg (· ++ ['}']) (List.append_nil _)
  | _ => exact fun _ => rfl

theorem itemsText_broken {items : List Tree} (level : Nat)
    (h : ∀ item ∈ items, broken.text level item = prettyAt level item) :
    broken.itemsText level items = prettyItems level items := by
  induction items with
  | nil => rfl
  | cons item items ih =>
    obtain ⟨hitem, hitems⟩ := List.forall_mem_cons.mp h
    cases items with
    | nil => exact congrArg (newline level ++ ·) hitem
    | cons next items =>
      rw [itemsText_cons, ih hitems, hitem]
      rfl

theorem entriesText_broken {entries : List (String × Tree)} (level : Nat)
    (h : ∀ entry ∈ entries, broken.text level entry.2 = prettyAt level entry.2) :
    broken.entriesText level entries = prettyEntries level entries := by
  induction entries with
  | nil => rfl
  | cons entry entries ih =>
    obtain ⟨key, value⟩ := entry
    obtain ⟨hvalue, hentries⟩ := List.forall_mem_cons.mp h
    cases entries with
    | nil => exact congrArg (newline level ++ quote key ++ ':' :: ' ' :: ·) hvalue
    | cons next entries =>
      rw [entriesText_cons, ih hentries, hvalue]
      rfl

/-- The layout with each entry on lines of its own is the text on several lines. -/
theorem text_broken (tree : Tree) : ∀ level, broken.text level tree = prettyAt level tree := by
  induction tree using Tree.induction with
  | sequence items ih =>
    intro level
    have hitems := itemsText_broken (level + 1) fun item hitem => ih item hitem (level + 1)
    cases items with
    | nil => rfl
    | cons item items =>
      rw [text, hitems]
      rfl
  | mapping entries ih =>
    intro level
    have hentries := entriesText_broken (level + 1) fun entry hentry => ih entry hentry (level + 1)
    cases entries with
    | nil => rfl
    | cons entry entries =>
      rw [text, hentries]
      rfl
  | _ => exact fun _ => rfl

end Layout

/-! ### Values of trees -/

/-- The value that a floating-point number is written as. -/
def floatValue (x : Float) : Value :=
  if x.isNaN || x.isInf then .null else .number (number.floatNumber x)

mutual

/-- The value that a tree is written as. -/
def ofTree : Tree → Value
  | .null => .null
  | .bool b => .bool b
  | .integer n => .number (.ofInteger n)
  | .float x => floatValue x
  | .string s => .string s
  | .sequence items => .array (ofItems items)
  | .mapping entries => .object (ofEntries entries)

def ofItems : List Tree → List Value
  | [] => []
  | item :: rest => ofTree item :: ofItems rest

def ofEntries : List (String × Tree) → List (String × Value)
  | [] => []
  | (key, value) :: rest => (key, ofTree value) :: ofEntries rest

end

/-! ### Scalars -/

/-- A text that begins neither with white space nor with a bracket. -/
def Begins (text : List Char) : Prop :=
  ∃ c tail, text = c :: tail ∧ isSpace c = false ∧ c ≠ '[' ∧ c ≠ '{' ∧ c ≠ ']'

theorem begins_number (plus : Bool) {n : Number} (h : n.Proper) : Begins (n.text plus) := by
  obtain ⟨c, tail, htext, hc⟩ := n.head_text plus h
  refine ⟨c, tail, htext, ?_⟩
  rcases hc with rfl | hc
  · decide
  · have hne (d : Char) (hd : d.isDigit = false) : c ≠ d := by
      rintro rfl
      exact absurd (hc.symm.trans hd) (by decide)
    refine ⟨?_, hne '[' rfl, hne '{' rfl, hne ']' rfl⟩
    simp [isSpace, hne ' ' rfl, hne '\n' rfl, hne '\t' rfl, hne '\r' rfl]

/-- A number at the beginning of a text is read. -/
theorem scalar?_number (plus : Bool) {n : Number} (h : n.Proper) {rest : List Char}
    (hrest : Number.Ends rest) :
    scalar? (n.text plus ++ rest) = some (.number n, rest) := by
  have hscan := n.scan?_text plus h hrest
  obtain ⟨c, tail, htext, hc⟩ := n.head_text plus h
  rw [htext, List.cons_append] at hscan ⊢
  have hguard : (c == '-' || c.isDigit) = true := by simpa using hc
  have hquote : c ≠ '"' := by
    rintro rfl
    exact absurd hguard (by decide)
  unfold scalar?
  split
  · exact absurd (List.cons.inj ‹_›).1 hquote
  · rename_i heq
    obtain ⟨rfl, -⟩ := List.cons.inj heq
    rw [if_pos hguard, hscan]
    rfl
  · exact absurd ‹_› (List.cons_ne_nil _ _)

/-- The text of a floating-point number: a number, or null where there is none. -/
theorem render_float (x : Float) :
    floatValue x = .null ∧ (number.render x).toList = "null".toList ∨
      ∃ n : Number, n.Proper ∧ floatValue x = .number n ∧
        (number.render x).toList = n.text true := by
  unfold floatValue
  cases hnan : x.isNaN with
  | true => exact .inl ⟨rfl, congrArg String.toList (number.render_nan hnan)⟩
  | false =>
    cases hinf : x.isInf with
    | true =>
      refine .inl ⟨rfl, congrArg String.toList ((number.render_infinite hnan hinf).trans ?_)⟩
      exact ite_self _
    | false =>
      exact .inr ⟨_, number.proper_number _ _, rfl, number.render_finite hnan hinf⟩

theorem scalar?_float (x : Float) {rest : List Char} (hrest : Number.Ends rest) :
    scalar? ((number.render x).toList ++ rest) = some (floatValue x, rest) := by
  obtain ⟨hvalue, htext⟩ | ⟨n, hproper, hvalue, htext⟩ := render_float x
  · rw [hvalue, htext]
    rfl
  · rw [hvalue, htext]
    exact scalar?_number true hproper hrest

/-! ### Steps of the reader -/

variable {depth limit : Nat}

/-- What does not begin with a bracket is a scalar. -/
theorem value?_scalar {front text : List Char} (hfront : IsGap front) (htext : Begins text)
    (rest : List Char) : value? depth (limit + 1) (front ++ (text ++ rest)) = scalar? (text ++ rest) := by
  obtain ⟨c, tail, rfl, hspace, hbracket, hbrace, -⟩ := htext
  have hskip : skipSpace (front ++ (c :: tail ++ rest)) = c :: tail ++ rest :=
    (skipSpace_append hfront _).trans (skipSpace_cons hspace _)
  rw [value?, hskip]
  · intro inside _ heq _
    exact hbracket (List.cons.inj (hskip.symm.trans heq)).1
  · intro inside _ heq _
    exact hbrace (List.cons.inj (hskip.symm.trans heq)).1

/-- White space in front of a value is skipped. -/
theorem value?_skipSpace (text : List Char) :
    value? depth limit (skipSpace text) = value? depth limit text := by
  cases limit with
  | zero => rw [value?, value?]
  | succ limit => unfold value?; rw [skipSpace_skipSpace]

theorem items?_skipSpace (text : List Char) :
    items? depth limit (skipSpace text) = items? depth limit text := by
  cases limit with
  | zero => rw [items?, items?]
  | succ limit => rw [items?, items?, value?_skipSpace]

theorem members?_skipSpace (text : List Char) :
    members? depth limit (skipSpace text) = members? depth limit text := by
  cases limit with
  | zero => rw [members?, members?]
  | succ limit => rw [members?, members?, skipSpace_skipSpace]

theorem value?_emptyArray {front : List Char} (hfront : IsGap front) (rest : List Char) :
    value? (depth + 1) (limit + 1) (front ++ '[' :: ']' :: rest) = some (.array [], rest) := by
  have hskip : skipSpace (front ++ '[' :: ']' :: rest) = '[' :: ']' :: rest :=
    skipSpace_append hfront _
  unfold value?
  rw [hskip]
  rfl

theorem value?_emptyObject {front : List Char} (hfront : IsGap front) (rest : List Char) :
    value? (depth + 1) (limit + 1) (front ++ '{' :: '}' :: rest) = some (.object [], rest) := by
  have hskip : skipSpace (front ++ '{' :: '}' :: rest) = '{' :: '}' :: rest :=
    skipSpace_append hfront _
  unfold value?
  rw [hskip]
  rfl

/-- An array that is not closed at once has items. -/
theorem value?_array {front text : List Char} (hfront : IsGap front)
    (hclose : ∀ rest, skipSpace text ≠ ']' :: rest) :
    value? (depth + 1) (limit + 1) (front ++ '[' :: text) =
      (items? depth limit text).map fun (items, rest) => (.array items, rest) := by
  have hskip : skipSpace (front ++ '[' :: text) = '[' :: text := skipSpace_append hfront _
  unfold value?
  rw [hskip]
  simp only [items?_skipSpace]

/-- An object that is not closed at once has members. -/
theorem value?_object {front text : List Char} (hfront : IsGap front)
    (hclose : ∀ rest, skipSpace text ≠ '}' :: rest) :
    value? (depth + 1) (limit + 1) (front ++ '{' :: text) =
      (members? depth limit text).map fun (members, rest) => (.object members, rest) := by
  have hskip : skipSpace (front ++ '{' :: text) = '{' :: text := skipSpace_append hfront _
  unfold value?
  rw [hskip]
  simp only [members?_skipSpace]

theorem items?_last {text gap rest after : List Char} {value : Value}
    (h : value? depth limit text = some (value, after)) (hgap : IsGap gap)
    (hafter : after = gap ++ ']' :: rest) :
    items? depth (limit + 1) text = some ([value], rest) := by
  have hskip : skipSpace after = ']' :: rest := hafter ▸ skipSpace_append hgap _
  simp [items?, h, hskip]

theorem items?_more {text rest : List Char} {value : Value}
    (h : value? depth limit text = some (value, ',' :: rest)) :
    items? depth (limit + 1) text =
      (items? depth limit rest).map fun (items, rest) => (value :: items, rest) := by
  have hskip : skipSpace (',' :: rest) = ',' :: rest := rfl
  simp [items?, h, hskip]

/-- A quoted key is skipped to. -/
theorem skipSpace_quote {front : List Char} (hfront : IsGap front) (key : String)
    (text : List Char) :
    skipSpace (front ++ (quote key ++ text)) =
      '"' :: (key.toList.flatMap quoteChar ++ '"' :: text) := by
  rw [skipSpace_append hfront, quote, List.cons_append, List.cons_append, skipSpace_cons rfl,
    List.append_assoc]
  rfl

theorem members?_last {front gap text rest after : List Char} {value : Value}
    (hfront : IsGap front) (key : String) (h : value? depth limit text = some (value, after))
    (hgap : IsGap gap) (hafter : after = gap ++ '}' :: rest) :
    members? depth (limit + 1) (front ++ (quote key ++ ':' :: text)) =
      some ([(key, value)], rest) := by
  have hcolon : skipSpace (':' :: text) = ':' :: text := rfl
  have hskip : skipSpace after = '}' :: rest := hafter ▸ skipSpace_append hgap _
  simp [members?, skipSpace_quote hfront, unquote?_quote, hcolon, h, hskip]

theorem members?_more {front text rest : List Char} {value : Value} (hfront : IsGap front)
    (key : String) (h : value? depth limit text = some (value, ',' :: rest)) :
    members? depth (limit + 1) (front ++ (quote key ++ ':' :: text)) =
      (members? depth limit rest).map fun (members, rest) => ((key, value) :: members, rest) := by
  have hcolon : skipSpace (':' :: text) = ':' :: text := rfl
  have hskip : skipSpace (',' :: rest) = ',' :: rest := rfl
  simp [members?, skipSpace_quote hfront, unquote?_quote, hcolon, h, hskip]

/-! ### Trees -/

/-- What may stand behind a value in a collection cannot continue a number. -/
theorem ends_gap {gap : List Char} (hgap : IsGap gap) {c : Char}
    (hc : c = ',' ∨ c = ']' ∨ c = '}') (rest : List Char) : Number.Ends (gap ++ c :: rest) := by
  intro d hd
  cases gap with
  | nil =>
    obtain rfl : c = d := Option.some.inj hd
    rcases hc with rfl | rfl | rfl <;> decide
  | cons first gap =>
    obtain rfl : first = d := Option.some.inj hd
    have hfirst := hgap first List.mem_cons_self
    simp only [isSpace, Bool.or_eq_true, beq_iff_eq] at hfirst
    rcases hfirst with ((rfl | rfl) | rfl) | rfl <;> decide

variable (l : Layout)

/-- How the text of a tree at a level is read: its value, whatever white space is in front of it and
whatever stands behind it that cannot continue a number. -/
def ReadsAs (depth level : Nat) (tree : Tree) : Prop :=
  ∀ ⦃limit : Nat⦄ ⦃front rest : List Char⦄, 2 * (l.text level tree).length ≤ limit →
    IsGap front → Number.Ends rest →
      value? depth limit (front ++ (l.text level tree ++ rest)) = some (ofTree tree, rest)

theorem items?_text {level : Nat} {item : Tree} {items : List Tree}
    (h : ∀ t ∈ item :: items, ReadsAs l depth level t) {gap : List Char} (hgap : IsGap gap)
    (hlimit : 2 * (l.itemsText level (item :: items)).length < limit) (rest : List Char) :
    items? depth limit (l.itemsText level (item :: items) ++ (gap ++ ']' :: rest)) =
      some (ofItems (item :: items), rest) := by
  obtain ⟨limit, rfl⟩ := Nat.exists_eq_add_one.mpr (Nat.zero_lt_of_lt hlimit)
  induction items generalizing item limit with
  | nil =>
    have hitem := h item List.mem_cons_self
    rw [Layout.itemsText, List.length_append] at hlimit
    rw [Layout.itemsText, List.append_assoc]
    exact items?_last (hitem (by omega) (l.isGap_gap level) (ends_gap hgap (by simp) rest)) hgap rfl
  | cons next items ih =>
    obtain ⟨hitem, hitems⟩ := List.forall_mem_cons.mp h
    rw [Layout.itemsText_cons] at hlimit ⊢
    simp only [List.length_append, List.length_cons] at hlimit
    obtain ⟨limit, rfl⟩ := Nat.exists_eq_add_one.mpr (show 0 < limit by omega)
    rw [List.append_assoc, List.append_assoc, List.cons_append]
    rw [items?_more (hitem (by omega) (l.isGap_gap level) (ends_gap isGap_nil (by simp) _)),
      ih hitems limit (by omega)]
    rfl

theorem members?_text {level : Nat} {entry : String × Tree} {entries : List (String × Tree)}
    (h : ∀ e ∈ entry :: entries, ReadsAs l depth level e.2) {gap : List Char} (hgap : IsGap gap)
    (hlimit : 2 * (l.entriesText level (entry :: entries)).length < limit) (rest : List Char) :
    members? depth limit (l.entriesText level (entry :: entries) ++ (gap ++ '}' :: rest)) =
      some (ofEntries (entry :: entries), rest) := by
  obtain ⟨limit, rfl⟩ := Nat.exists_eq_add_one.mpr (Nat.zero_lt_of_lt hlimit)
  induction entries generalizing entry limit with
  | nil =>
    obtain ⟨key, value⟩ := entry
    have hvalue : ReadsAs l depth level value := h (key, value) List.mem_cons_self
    rw [Layout.entriesText] at hlimit ⊢
    simp only [List.length_append, List.length_cons] at hlimit
    rw [List.append_assoc, List.append_assoc, List.cons_append, List.append_assoc]
    exact members?_last (l.isGap_gap level) key
      (hvalue (by omega) l.isGap_space (ends_gap hgap (by simp) rest)) hgap rfl
  | cons next entries ih =>
    obtain ⟨key, value⟩ := entry
    have hvalue : ReadsAs l depth level value := h (key, value) List.mem_cons_self
    have hentries := (List.forall_mem_cons.mp h).2
    rw [Layout.entriesText_cons] at hlimit ⊢
    simp only [List.length_append, List.length_cons] at hlimit
    obtain ⟨limit, rfl⟩ := Nat.exists_eq_add_one.mpr (show 0 < limit by omega)
    rw [List.append_assoc, List.append_assoc, List.append_assoc, List.cons_append, List.cons_append,
      List.append_assoc]
    rw [members?_more (l.isGap_gap level) key
        (hvalue (by omega) l.isGap_space (ends_gap isGap_nil (by simp) _)),
      ih hentries limit (by omega)]
    rfl

/-- A tree without items or entries is written as a scalar. -/
theorem leaf_text (level : Nat) (tree : Tree) (hsequence : tree.sequence? = none)
    (hmapping : tree.mapping? = none) :
    Begins (l.text level tree) ∧ ∀ rest, Number.Ends rest →
      scalar? (l.text level tree ++ rest) = some (ofTree tree, rest) := by
  cases tree with
  | null => exact ⟨⟨'n', _, rfl, by decide⟩, fun _ _ => rfl⟩
  | bool b =>
    cases b with
    | true => exact ⟨⟨'t', _, rfl, by decide⟩, fun _ _ => rfl⟩
    | false => exact ⟨⟨'f', _, rfl, by decide⟩, fun _ _ => rfl⟩
  | integer n =>
    have hproper := Number.proper_ofInteger n
    rw [Layout.text, ← Number.text_ofInteger true n]
    exact ⟨begins_number true hproper, fun rest => scalar?_number true hproper⟩
  | float x =>
    refine ⟨?_, fun rest => scalar?_float x⟩
    rw [Layout.text]
    obtain ⟨-, htext⟩ | ⟨n, hproper, -, htext⟩ := render_float x
    · exact htext ▸ ⟨'n', _, rfl, by decide⟩
    · exact htext ▸ begins_number true hproper
  | string s =>
    refine ⟨⟨'"', _, rfl, by decide⟩, fun rest _ => ?_⟩
    rw [Layout.text, quote, List.cons_append, List.cons_append, List.append_assoc]
    exact congrArg (Option.map _) (unquote?_quote s rest)
  | sequence items => exact absurd hsequence (Option.some_ne_none _)
  | mapping entries => exact absurd hmapping (Option.some_ne_none _)

/-- The text of a tree begins with no white space, and never like the end of an array. -/
theorem head_text (level : Nat) (tree : Tree) :
    ∃ c tail, l.text level tree = c :: tail ∧ isSpace c = false ∧ c ≠ ']' := by
  have hleaf (tree : Tree) (hsequence : tree.sequence? = none) (hmapping : tree.mapping? = none) :
      ∃ c tail, l.text level tree = c :: tail ∧ isSpace c = false ∧ c ≠ ']' := by
    obtain ⟨⟨c, tail, htext, hspace, -, -, hbracket⟩, -⟩ :=
      leaf_text l level tree hsequence hmapping
    exact ⟨c, tail, htext, hspace, hbracket⟩
  cases tree with
  | sequence items => cases items <;> exact ⟨'[', _, rfl, by decide⟩
  | mapping entries => cases entries <;> exact ⟨'{', _, rfl, by decide⟩
  | _ => exact hleaf _ rfl rfl

theorem readsAs_leaf (depth level : Nat) (tree : Tree) (hsequence : tree.sequence? = none)
    (hmapping : tree.mapping? = none) : ReadsAs l depth level tree := by
  intro limit front rest hlimit hfront hrest
  obtain ⟨hbegins, hscalar⟩ := leaf_text l level tree hsequence hmapping
  obtain ⟨limit, rfl⟩ : ∃ n, limit = n + 1 := by
    obtain ⟨c, tail, htext, -⟩ := hbegins
    rw [htext, List.length_cons] at hlimit
    exact Nat.exists_eq_add_one.mpr (by omega)
  rw [value?_scalar hfront hbegins, hscalar rest hrest]

/-- The text of items does not begin like the end of an array. -/
theorem skipSpace_itemsText (level : Nat) (item : Tree) (items : List Tree)
    (rest tail : List Char) :
    skipSpace (l.itemsText level (item :: items) ++ rest) ≠ ']' :: tail := by
  obtain ⟨c, inside, htext, hspace, hbracket⟩ := head_text l level item
  intro heq
  cases items with
  | nil =>
    rw [Layout.itemsText, htext, List.append_assoc, skipSpace_append (l.isGap_gap level),
      List.cons_append, skipSpace_cons hspace] at heq
    exact hbracket (List.cons.inj heq).1
  | cons next items =>
    rw [Layout.itemsText_cons, htext, List.append_assoc, List.append_assoc,
      skipSpace_append (l.isGap_gap level), List.cons_append, skipSpace_cons hspace] at heq
    exact hbracket (List.cons.inj heq).1

/-- The text of entries does not begin like the end of an object. -/
theorem skipSpace_entriesText (level : Nat) (entry : String × Tree)
    (entries : List (String × Tree)) (rest tail : List Char) :
    skipSpace (l.entriesText level (entry :: entries) ++ rest) ≠ '}' :: tail := by
  obtain ⟨key, value⟩ := entry
  intro heq
  cases entries with
  | nil =>
    rw [Layout.entriesText, List.append_assoc, List.append_assoc,
      skipSpace_quote (l.isGap_gap level)] at heq
    exact absurd (List.cons.inj heq).1 (by decide)
  | cons next entries =>
    rw [Layout.entriesText_cons, List.append_assoc, List.append_assoc, List.append_assoc,
      skipSpace_quote (l.isGap_gap level)] at heq
    exact absurd (List.cons.inj heq).1 (by decide)

/-- The text of a tree is read as the value of the tree. -/
theorem value?_text (tree : Tree) :
    ∀ {depth : Nat} (level : Nat), tree.depth ≤ depth → ReadsAs l depth level tree := by
  induction tree using Tree.induction with
  | sequence items ih =>
    intro depth level hdepth limit front rest hlimit hfront hrest
    obtain ⟨depth, rfl⟩ := Nat.exists_eq_add_one.mpr (Nat.zero_lt_of_lt hdepth)
    have hread : ∀ item ∈ items, ReadsAs l depth (level + 1) item := fun item hitem =>
      ih item hitem (level + 1)
        (Nat.le_trans (Tree.depth_le_itemsDepth hitem) (Nat.le_of_succ_le_succ hdepth))
    cases items with
    | nil =>
      rw [Layout.text] at hlimit ⊢
      obtain ⟨limit, rfl⟩ := Nat.exists_eq_add_one.mpr (Nat.zero_lt_of_lt hlimit)
      exact value?_emptyArray hfront rest
    | cons item items =>
      rw [Layout.text] at hlimit ⊢
      simp only [List.length_append, List.length_cons] at hlimit
      obtain ⟨limit, rfl⟩ := Nat.exists_eq_add_one.mpr (show 0 < limit by omega)
      rw [List.append_assoc, List.append_assoc, List.cons_append, List.singleton_append,
        value?_array hfront (skipSpace_itemsText l (level + 1) item items _),
        items?_text l hread (l.isGap_gap level) (by omega) rest]
      rfl
  | mapping entries ih =>
    intro depth level hdepth limit front rest hlimit hfront hrest
    obtain ⟨depth, rfl⟩ := Nat.exists_eq_add_one.mpr (Nat.zero_lt_of_lt hdepth)
    have hread : ∀ entry ∈ entries, ReadsAs l depth (level + 1) entry.2 := fun entry hentry =>
      ih entry hentry (level + 1)
        (Nat.le_trans (Tree.depth_le_entriesDepth hentry) (Nat.le_of_succ_le_succ hdepth))
    cases entries with
    | nil =>
      rw [Layout.text] at hlimit ⊢
      obtain ⟨limit, rfl⟩ := Nat.exists_eq_add_one.mpr (Nat.zero_lt_of_lt hlimit)
      exact value?_emptyObject hfront rest
    | cons entry entries =>
      rw [Layout.text] at hlimit ⊢
      simp only [List.length_append, List.length_cons] at hlimit
      obtain ⟨limit, rfl⟩ := Nat.exists_eq_add_one.mpr (show 0 < limit by omega)
      rw [List.append_assoc, List.append_assoc, List.cons_append, List.singleton_append,
        value?_object hfront (skipSpace_entriesText l (level + 1) entry entries _),
        members?_text l hread (l.isGap_gap level) (by omega) rest]
      rfl
  | _ => exact fun level _ => readsAs_leaf l _ level _ rfl rfl

/-! ### Whole texts -/

theorem parse?_text {tree : Tree} {depth : Nat} (hdepth : tree.depth ≤ depth) (level : Nat) :
    parse? depth (String.ofList (l.text level tree)) = some (ofTree tree) := by
  have hread : value? depth (2 * (l.text level tree).length + 2)
      ([] ++ (l.text level tree ++ [])) = some (ofTree tree, []) :=
    value?_text l tree level hdepth (Nat.le_add_right _ 2) isGap_nil Number.ends_nil
  rw [List.nil_append, List.append_nil] at hread
  rw [parse?, String.toList_ofList]
  simp [hread]
  rfl

/-- A tree on several lines is the text of its value. -/
theorem parse?_pretty {tree : Tree} {depth : Nat} (hdepth : tree.depth ≤ depth) :
    parse? depth (pretty tree) = some (ofTree tree) := by
  rw [pretty, ← Layout.text_broken]
  exact parse?_text _ hdepth 0

/-- The text that a tree is shown as is the text of its value. -/
theorem parse?_compact {tree : Tree} {depth : Nat} (hdepth : tree.depth ≤ depth) :
    parse? depth tree.text = some (ofTree tree) := by
  rw [Tree.text, ← Layout.text_flat _ 0]
  exact parse?_text _ hdepth 0

end Json

end CollectorTemplate
