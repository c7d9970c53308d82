/-
Rendered data read back.

What is rendered as YAML is read as the tree of the data, with one exception: the line test for
blank fragments may take the text for blank.  That needs a first key that begins with white space of
a wider script, with a percent sign behind it, which the line test takes for a directive.

* `TemplateData.Valid` : what holds of all template data;
* `Fragment.directive_of_isBlank` : the first key of a text that is taken for blank;
* `TemplateData.parse_toYaml` : what a rendered text is parsed as;
* `TemplateData.toYaml_swallowed` : data that are lost on the way.
-/
import CollectorTemplate.Proofs.Plain
import CollectorTemplate.Proofs.Yaml.Data
import CollectorTemplate.Template.Data

namespace CollectorTemplate

/-! ### Lines -/

namespace Text

/-- What goes with the end of a line stands behind every character that is not CR. -/
theorem dropReturn_spec (front tail : List Char) {c : Char} (hc : c ≠ '\r') :
    ∃ kept, dropReturn (front ++ c :: tail) = front ++ c :: kept := by
  unfold dropReturn
  split
  · rename_i hlast
    cases tail with
    | nil => exact absurd (by simpa using hlast) hc
    | cons d tail => exact ⟨(d :: tail).dropLast, by rw [List.dropLast_append_cons]; rfl⟩
  · exact ⟨tail, rfl⟩

theorem lines_go_spec (text : List Char) {c : Char} (hc : c ≠ '\r') (front back : List Char) :
    ∃ tail more, lines.go text (back ++ c :: front) = (front.reverse ++ c :: tail) :: more := by
  induction text generalizing back with
  | nil => exact ⟨back.reverse, [], by simp [lines.go]⟩
  | cons d text ih =>
    rw [lines.go]
    split
    · obtain ⟨kept, hkept⟩ := dropReturn_spec front.reverse back.reverse hc
      exact ⟨kept, lines.go text [], by simp [hkept]⟩
    · exact ih (d :: back)

/-- What a text begins with on one line, its first line begins with. -/
theorem lines_spec {front : List Char} (hfront : '\n' ∉ front) {c : Char} (hc : c ≠ '\r')
    (hline : c ≠ '\n') (rest : List Char) :
    ∃ tail more, lines (front ++ c :: rest) = (front ++ c :: tail) :: more := by
  have hgo (line : List Char) : ∃ tail more, lines.go (front ++ c :: rest) line =
      (line.reverse ++ (front ++ c :: tail)) :: more := by
    induction front generalizing line with
    | nil =>
      obtain ⟨tail, more, h⟩ := lines_go_spec rest hc line []
      refine ⟨tail, more, ?_⟩
      rw [List.nil_append, lines.go, if_neg hline]
      exact h
    | cons d front ih =>
      obtain ⟨hd, hfront⟩ := not_or.mp (mt List.mem_cons.mpr hfront)
      obtain ⟨tail, more, h⟩ := ih hfront (d :: line)
      refine ⟨tail, more, ?_⟩
      rw [List.cons_append, lines.go, if_neg (Ne.symm hd), h]
      simp
  exact hgo []

end Text

namespace Fragment

open Yaml Scalar

/-! ### The first line -/

/-- A line without the white space around it, where no white space stands in front of `front` and
`c` is none. -/
theorem trim_spec (space front : List Char) {c : Char} (rest : List Char)
    (hspace : ∀ d ∈ space, Text.isSpace d = true)
    (hfront : ∀ d ∈ (front ++ [c]).head?, Text.isSpace d = false) (hc : Text.isSpace c = false) :
    ∃ tail, Text.trim (space ++ (front ++ c :: rest)) = front ++ c :: tail := by
  have hdrop : (front ++ c :: rest).dropWhile Text.isSpace = front ++ c :: rest := by
    cases front with
    | nil => exact List.dropWhile_cons_of_neg (by simp [hc])
    | cons d front => exact List.dropWhile_cons_of_neg (by simp [hfront d rfl])
  have hback (back others : List Char) : (back ++ c :: others).dropWhile Text.isSpace =
      back.dropWhile Text.isSpace ++ c :: others := by
    induction back with
    | nil => exact List.dropWhile_cons_of_neg (by simp [hc])
    | cons d back ih =>
      rw [List.cons_append, List.dropWhile_cons, List.dropWhile_cons, ih]
      split <;> rfl
  refine ⟨(rest.reverse.dropWhile Text.isSpace).reverse, ?_⟩
  rw [Text.trim, List.dropWhile_append_of_pos hspace, hdrop, List.reverse_append,
    List.reverse_cons, List.append_assoc, List.singleton_append, hback]
  simp

/-- The white space that a text begins with, if `c`, which is none, stands behind the text. -/
theorem exists_lead (text : List Char) {c : Char} (hc : Text.isSpace c = false) :
    ∃ space front, text = space ++ front ∧ (∀ d ∈ space, Text.isSpace d = true) ∧
      ∀ d ∈ (front ++ [c]).head?, Text.isSpace d = false := by
  refine ⟨_, _, (List.takeWhile_append_dropWhile (p := Text.isSpace)).symm,
    fun d hd => List.mem_takeWhile_imp hd, fun d hd => ?_⟩
  cases hdrop : text.dropWhile Text.isSpace with
  | nil =>
    rw [hdrop] at hd
    obtain rfl := Option.some.inj hd
    exact hc
  | cons e others =>
    rw [hdrop] at hd
    obtain rfl : e = d := Option.some.inj hd
    have hhead := List.head_dropWhile_not Text.isSpace (l := text) (by simp [hdrop])
    simpa [hdrop] using hhead

/-- No comment begins in a plain scalar. -/
theorem stripComment_plain {before : Char} {text : List Char} (hbefore : isPrintable before = true)
    (hprint : text.all isPrintable = true) (hends : endsEarly before text = false)
    (rest : List Char) :
    stripComment (Text.isAsciiSpace before) (text ++ ':' :: rest) =
      text ++ ':' :: stripComment false rest := by
  have hspacing (c : Char) (hc : isPrintable c = true) (hspace : Text.isAsciiSpace c = true) :
      isSpacing c = true := by
    simp only [Text.isAsciiSpace, Bool.or_eq_true, beq_iff_eq] at hspace
    rcases hspace with (((rfl | rfl) | rfl) | rfl) | rfl
    · rfl
    · rfl
    · rfl
    · exact absurd hc (by decide)
    · rfl
  induction text generalizing before with
  | nil => exact if_neg fun h => absurd h.2 (by decide)
  | cons c text ih =>
    obtain ⟨hc, hprint⟩ := Bool.and_eq_true_iff.mp hprint
    simp only [endsEarly, Bool.or_eq_false_iff] at hends
    obtain ⟨⟨-, hsharp⟩, hends⟩ := hends
    rw [List.cons_append, stripComment, if_neg, ih hc hprint hends]
    · rfl
    · rintro ⟨hspace, rfl⟩
      rw [hspacing before hbefore hspace] at hsharp
      exact Bool.noConfusion hsharp

/-- A line with a colon that has no content is a directive. -/
theorem head_of_blankLine? {line front tail : List Char} (h : blankLine? line ≠ none)
    (hbare : Text.trim (stripComment true line) = front ++ ':' :: tail) :
    (front ++ ':' :: tail).head? = some '%' := by
  have hmem : ':' ∈ front ++ ':' :: tail := by simp
  have hdots : ¬(front ++ ':' :: tail = [] ∨ front ++ ':' :: tail = ['.', '.', '.']) := by
    rintro (h | h) <;> rw [h] at hmem <;> exact absurd hmem (by decide)
  have hdashes : front ++ ':' :: tail ≠ ['-', '-', '-'] := by
    intro h
    rw [h] at hmem
    exact absurd hmem (by decide)
  rw [blankLine?, hbare] at h
  simp only [if_neg hdots, if_neg hdashes] at h
  by_contra hhead
  exact h (if_neg hhead)

/-- A key that the line test takes for a directive: white space of a wider script, and behind it a
percent sign. -/
def BeginsDirective (key : String) : Prop :=
  ∃ space rest, key.toList = space ++ '%' :: rest ∧ space ≠ [] ∧
    (∀ c ∈ space, Text.isSpace c = true) ∧ ∀ c ∈ space.head?, isSpacing c = false

/-- The line of a plain key has content, unless the key begins like a directive. -/
theorem blankLine?_plain {key : String} (hplain : plainHolds key.toList = true) {rest : List Char}
    (h : blankLine? (key.toList ++ ':' :: rest) ≠ none) : BeginsDirective key := by
  generalize htext : key.toList = text at hplain h
  cases text with
  | nil =>
    exact absurd (blankLine?_eq_none rfl (by decide) rest) h
  | cons c words =>
    have hprint : (c :: words).all isPrintable = true := by
      simp only [plainHolds, Bool.and_eq_true] at hplain
      exact hplain.1.1.1
    obtain ⟨hspacing, hopening, -⟩ := head_of_plainHolds hplain
    have hends : endsEarly c words = false := by
      simp only [plainHolds, hasIndicator, Bool.and_eq_true, Bool.not_eq_true',
        Bool.or_eq_false_iff] at hplain
      exact hplain.2.2
    obtain ⟨hc, hwords⟩ := Bool.and_eq_true_iff.mp hprint
    have hstrip : stripComment true (c :: words ++ ':' :: rest) =
        c :: words ++ ':' :: stripComment false rest := by
      rw [List.cons_append, stripComment, if_neg fun h => ne_of_isOpening hopening '#' (by simp)
        h.2,
        stripComment_plain hc hwords hends]
      rfl
    -- What is left of the line begins with the first character that is not white space.
    obtain ⟨space, front, hsplit, hspace, hfront⟩ := exists_lead (c :: words) (c := ':') rfl
    obtain ⟨tail, htrim⟩ := trim_spec space front (stripComment false rest) hspace hfront rfl
    rw [← List.append_assoc, ← hsplit, ← hstrip] at htrim
    have hhead := head_of_blankLine? h htrim
    cases front with
    | nil => exact absurd (Option.some.inj hhead) (by decide)
    | cons d others =>
      obtain rfl : d = '%' := Option.some.inj hhead
      refine ⟨space, others, htext.trans hsplit, ?_, hspace, ?_⟩
      · rintro rfl
        obtain rfl : c = '%' := (List.cons.inj hsplit).1
        exact absurd hopening (by decide)
      · intro e he
        cases space with
        | nil => exact absurd he (by simp)
        | cons first space =>
          obtain rfl : first = e := Option.some.inj he
          obtain rfl : c = first := (List.cons.inj hsplit).1
          exact hspacing

/-- The first key of a mapping whose text is taken for blank begins like a directive. -/
theorem directive_of_isBlank {entries : List (String × Tree)}
    (h : isBlank (write (.mapping entries)) = true) :
    ∃ key value rest, entries = (key, value) :: rest ∧ BeginsDirective key := by
  have hfirst {c : Char} (hreturn : c ≠ '\r') (hline : c ≠ '\n') (front rest : List Char)
      (hfront : '\n' ∉ front) (hwrite : (write (.mapping entries)).toList = front ++ c :: rest) :
      ∃ tail, blankLine? (front ++ c :: tail) ≠ none := by
    obtain ⟨tail, more, hlines⟩ := Text.lines_spec hfront hreturn hline rest
    rw [isBlank, hwrite, hlines] at h
    exact ⟨tail, blankLine?_ne_none h _ List.mem_cons_self⟩
  have hopens {c : Char} (hspace : Text.isSpace c = false)
      (hc : c ≠ '#' ∧ c ≠ '.' ∧ c ≠ '-' ∧ c ≠ '%') (rest : List Char)
      (hwrite : (write (.mapping entries)).toList = c :: rest) : False := by
    have hreturn : c ≠ '\r' := by
      rintro rfl
      exact absurd hspace (by decide)
    have hline : c ≠ '\n' := by
      rintro rfl
      exact absurd hspace (by decide)
    obtain ⟨tail, htail⟩ := hfirst hreturn hline [] rest List.not_mem_nil hwrite
    exact htail (blankLine?_eq_none hspace hc tail)
  cases entries with
  | nil => exact (hopens (c := '{') rfl (by decide) ['}', '\n'] rfl).elim
  | cons entry rest =>
    obtain ⟨key, value⟩ := entry
    refine ⟨key, value, rest, rfl, ?_⟩
    have hwrite : (write (.mapping ((key, value) :: rest))).toList =
        Lexing.entryText 0 key value ++ entryLines 0 (spaces 0) rest := by
      rw [write, String.toList_ofList, Lexing.entryLines_eq, List.nil_append]
    unfold Lexing.entryText at hwrite
    split at hwrite
    · -- Quoted keys begin with their quotes; a key on its line is no block.
      rename_i hsimple
      obtain ⟨hline, -⟩ := isSimpleKey_spec hsimple
      have hfits := fits_styleOf key.toList
      have hliteral := styleOf_ne_literal hline
      generalize styleOf key.toList = style at hfits hliteral hwrite
      cases style with
      | plain =>
        have hbreak : '\n' ∉ key.toList := fun h => absurd (hline '\n' h) (by decide)
        rw [List.append_assoc] at hwrite
        obtain ⟨tail, htail⟩ := hfirst (by decide) (by decide) _ _ hbreak hwrite
        exact blankLine?_plain hfits.1 htail
      | singleQuoted => exact (hopens (c := '\'') rfl (by decide) _ hwrite).elim
      | doubleQuoted => exact (hopens (c := '"') rfl (by decide) _ hwrite).elim
      | literal => exact absurd rfl hliteral
      | folded => exact hfits.elim
    · exact (hopens (c := '?') rfl (by decide) _ hwrite).elim

end Fragment

/-! ### Template data -/

/-- What holds of all values: integers have 64 bits with sign, and exporters have distinct names. -/
def TemplateValue.Valid : TemplateValue → Prop
  | .integer n => Width.signed 64 n = true
  | .exporters trees => (Entries.keys trees).Nodup ∧ ∀ exporter ∈ trees, exporter.2.Valid
  | _ => True

theorem Tree.valid_ofEntries {entries : List (String × Tree)}
    (h : ∀ entry ∈ entries, entry.2.Valid) : (Tree.ofEntries entries).Valid :=
  .mapping (Entries.sorted_ofList entries) fun entry hentry => h entry
    (Entries.mem_of_mem_ofList hentry)

theorem TemplateValue.valid_tree {value : TemplateValue} (h : value.Valid) : value.tree.Valid := by
  cases value with
  | bool b => exact .bool b
  | integer n => exact .integer h
  | string s => exact .string s
  | list names =>
    refine .sequence fun item hitem => ?_
    obtain ⟨name, -, rfl⟩ := List.mem_map.mp hitem
    exact .string name
  | exporters trees => exact Tree.valid_ofEntries h.2

namespace TemplateData

variable {d : TemplateData}

/-- What holds of all template data: each key has one value, and that is valid. -/
structure Valid (d : TemplateData) : Prop where
  distinct : (Entries.keys d.entries).Nodup
  values : ∀ entry ∈ d.entries, entry.2.Valid

theorem valid_tree (h : d.Valid) : d.tree.Valid := by
  refine Tree.valid_ofEntries fun entry hentry => ?_
  obtain ⟨⟨key, value⟩, hmem, rfl⟩ := List.mem_map.mp hentry
  exact TemplateValue.valid_tree (h.values _ hmem)

/-- The trees of the values stand under the keys of the data. -/
theorem keys_trees (d : TemplateData) :
    Entries.keys (d.entries.map fun entry => (entry.1, entry.2.tree)) = Entries.keys d.entries :=
  List.map_map

/-- The tree of the data has just their keys, each with the tree of its value. -/
theorem get?_tree (h : d.Valid) (key : String) :
    d.tree.get? key = (d.get? key).map (·.tree) := by
  have hmap (entries : List (String × TemplateValue)) :
      Entries.find? key (entries.map fun entry => (entry.1, entry.2.tree)) =
        (Entries.find? key entries).map (·.tree) := by
    induction entries with
    | nil => rfl
    | cons entry entries ih =>
      rw [List.map_cons, Entries.find?, Entries.find?, ih]
      split <;> rfl
  have hdistinct := h.distinct
  rw [← d.keys_trees] at hdistinct
  rw [Tree.get?, tree, Tree.ofEntries]
  exact (Entries.find?_ofList_of_nodup hdistinct).trans (hmap d.entries)

/-- The tree of exporters has just their names, each with its own tree. -/
theorem get?_exporters (h : d.Valid) {key : String} {trees : List (String × Tree)}
    (hkey : d.get? key = some (.exporters trees)) (name : String) :
    (TemplateValue.exporters trees).tree.get? name = Entries.find? name trees :=
  Entries.find?_ofList_of_nodup (h.values _ (Entries.mem_of_find? hkey)).1

/-- The tree of rendered data is parsed back, with just the keys of the data, unless the line test
takes the text for blank.  Then an empty mapping is parsed, and the first key begins like a
directive. -/
theorem parse_toYaml (h : d.Valid) (hfloat : d.tree.hasFloat = false)
    (hdepth : d.tree.depth ≤ Yaml.depthLimit) :
    (∀ key, d.tree.get? key = (d.get? key).map (·.tree)) ∧
      (∀ key trees, d.get? key = some (.exporters trees) →
        ∀ name, (TemplateValue.exporters trees).tree.get? name = Entries.find? name trees) ∧
      (Fragment.isBlank d.toYaml = false → Fragment.parse d.toYaml = .ok d.tree) ∧
      (Fragment.isBlank d.toYaml = true → Fragment.parse d.toYaml = .ok .empty ∧
        ∃ key value rest, d.tree = .mapping ((key, value) :: rest) ∧
          Fragment.BeginsDirective key) := by
  have hexact := (valid_tree h).exact hfloat
  refine ⟨get?_tree h, fun _ _ => get?_exporters h, fun hblank => ?_, fun hblank =>
    ⟨if_pos hblank, ?_⟩⟩
  · have hread : Fragment.read d.toYaml = .ok d.tree.data :=
      Yaml.Document.data_write hexact.readable hdepth .value
    rw [Fragment.parse_of_read hblank hread, Fragment.convert_data hexact]
    rfl
  · obtain ⟨key, value, rest, hentries, hkey⟩ := Fragment.directive_of_isBlank hblank
    exact ⟨key, value, rest, congrArg Tree.mapping hentries, hkey⟩

/-- Where a number and a text that looks like one stand side by side, both come back. -/
theorem parse_toYaml_at_port :
    Valid ⟨[("port", .integer 8080), ("label", .string "8080")]⟩ ∧
      (tree ⟨[("port", .integer 8080), ("label", .string "8080")]⟩).hasFloat = false ∧
      (tree ⟨[("port", .integer 8080), ("label", .string "8080")]⟩).depth ≤ Yaml.depthLimit ∧
      Fragment.parse (toYaml ⟨[("port", .integer 8080), ("label", .string "8080")]⟩) =
        .ok (tree ⟨[("port", .integer 8080), ("label", .string "8080")]⟩) ∧
      (tree ⟨[("port", .integer 8080), ("label", .string "8080")]⟩).get? "label" =
        some (.string "8080") := by
  have hvalid : Valid ⟨[("port", .integer 8080), ("label", .string "8080")]⟩ :=
    ⟨by decide, List.forall_mem_cons.mpr ⟨(by decide +kernel : Width.signed 64 8080 = true),
      List.forall_mem_singleton.mpr trivial⟩⟩
  have hfloat : (tree ⟨[("port", .integer 8080), ("label", .string "8080")]⟩).hasFloat = false := by
    decide +kernel
  have hdepth : (tree ⟨[("port", .integer 8080), ("label", .string "8080")]⟩).depth ≤
      Yaml.depthLimit := by decide +kernel
  have hblank : Fragment.isBlank
      (toYaml ⟨[("port", .integer 8080), ("label", .string "8080")]⟩) = false := by
    decide +kernel
  obtain ⟨hget, -, hparse, -⟩ := parse_toYaml hvalid hfloat hdepth
  exact ⟨hvalid, hfloat, hdepth, hparse hblank, (hget "label").trans rfl⟩

/-- A key that begins like a directive, with a value that ends it like one, is lost. -/
theorem toYaml_swallowed :
    Valid ⟨[("\u00a0%", .string "---\n")]⟩ ∧
      (tree ⟨[("\u00a0%", .string "---\n")]⟩).hasFloat = false ∧
      (tree ⟨[("\u00a0%", .string "---\n")]⟩).depth ≤ Yaml.depthLimit ∧
      toYaml ⟨[("\u00a0%", .string "---\n")]⟩ = "\u00a0%: |\n  ---\n" ∧
      Fragment.parse (toYaml ⟨[("\u00a0%", .string "---\n")]⟩) = .ok .empty ∧
      Tree.get? .empty "\u00a0%" = none := by
  have hvalid : Valid ⟨[("\u00a0%", .string "---\n")]⟩ :=
    ⟨by decide, List.forall_mem_singleton.mpr trivial⟩
  have hblank : Fragment.isBlank (toYaml ⟨[("\u00a0%", .string "---\n")]⟩) = true := by
    decide +kernel
  exact ⟨hvalid, by decide +kernel, by decide +kernel, by decide +kernel, if_pos hblank, rfl⟩

end TemplateData

end CollectorTemplate
