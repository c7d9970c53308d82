/-
The shortcut for blank fragments.

A fragment is taken for blank by a look at its lines, before it is read.  The reader ends lines at
more characters than LF, knows no blanks but space and tab, and takes a marker for one only at the
beginning of its line.  So the line test can miss content, and exactly where is said here.

* `Fragment.shortcut_exact` : of the texts with content those that look blank to the line test become
  empty mappings, and all others what they are converted to;
* `Fragment.shortcut_swallows_mapping` : a comment that a CR ends, with a mapping behind it.

The content of a text is safe if LF ends all its lines and these are plain.
-/
import CollectorTemplate.Proofs.LineTest

namespace CollectorTemplate.Fragment

open Yaml

variable {raw : String} {data : Untyped}

/-- A text that is read has content just if a line of it, as the reader ends lines, is not idle, but
for the properties of a node without content.  A text with content becomes an empty mapping in place
of that just if it looks blank: if each of its lines, as LF ends them, is nothing, a marker or a
directive once its comment and the white space around it are gone, and each directive has its
document.  Otherwise it becomes what its data are converted to.  No text with content looks blank if
LF ends all its lines and they are plain, as those of plain texts are. -/
theorem shortcut_exact (h : read raw = .ok data) :
    ((Document.ofString raw).HoldsContent ↔
      isSilent raw.toList = false ∧ ¬(Document.ofString raw).OnlyProperties) ∧
    ((Document.ofString raw).HoldsContent →
      (LooksBlank raw.toList → isBlank raw = true ∧ parse raw = .ok .empty) ∧
      (¬LooksBlank raw.toList → isBlank raw = false ∧
        parse raw = (convert data).mapError fun e => ⟨e.text, none⟩) ∧
      (LineFed raw.toList → (∀ line ∈ Yaml.lines raw.toList, PlainLine line) →
        ¬LooksBlank raw.toList)) := by
  refine ⟨content_iff h, fun hcontent => ⟨fun hlooks => ?_, fun hlooks => ?_, ?_⟩⟩
  · have hblank : isBlank raw = true := (isBlank_iff raw).mpr hlooks
    exact ⟨hblank, parse_of_isBlank hblank⟩
  · have hblank : isBlank raw = false :=
      Bool.eq_false_iff.mpr fun hblank => hlooks ((isBlank_iff raw).mp hblank)
    exact ⟨hblank, parse_of_read hblank h⟩
  · intro hfed hlines hlooks
    -- A blank text of this kind would be silent, and so hold nothing.
    have hsilent := hfed.isSilent_of_isBlank hlines ((isBlank_iff raw).mpr hlooks)
    exact absurd (((content_iff h).mp hcontent).1.symm.trans hsilent) Bool.false_ne_true

/-- A mapping of one key, as the reader finds it. -/
theorem read_eq_single {key value : String}
    (h : (match read raw with
      | .ok (.mapping [(.string k, .string v)]) => k == key && v == value
      | _ => false) = true) : read raw = .ok (.mapping [(.string key, .string value)]) := by
  split at h
  · rename_i k v hread
    obtain ⟨hk, hv⟩ := Bool.and_eq_true_iff.mp h
    rw [hread, beq_iff_eq.mp hk, beq_iff_eq.mp hv]
  · nomatch h

theorem holdsContent_of_mapping
    (h : (match (Document.ofString raw).root with
      | some (.mapping ..) => true
      | _ => false) = true) : (Document.ofString raw).HoldsContent := by
  split at h
  · rename_i place tag entries hroot
    exact ⟨.mapping place tag entries, hroot, trivial⟩
  · nomatch h

/-- A comment before a mapping is no reason to take the text for blank, here with CR LF behind it. -/
theorem shortcut_exact_at_mapping :
    read "# c\r\nkey: v" = .ok (.mapping [(.string "key", .string "v")]) ∧
      (Document.ofString "# c\r\nkey: v").HoldsContent ∧ LineFed "# c\r\nkey: v".toList ∧
      (∀ line ∈ Yaml.lines "# c\r\nkey: v".toList, PlainLine line) ∧
      ¬LooksBlank "# c\r\nkey: v".toList ∧ isBlank "# c\r\nkey: v" = false ∧
      parse "# c\r\nkey: v" = .ok (.mapping [("key", .string "v")]) := by
  have hread : read "# c\r\nkey: v" = .ok (.mapping [(.string "key", .string "v")]) :=
    read_eq_single (by decide +kernel)
  have hcontent : (Document.ofString "# c\r\nkey: v").HoldsContent :=
    holdsContent_of_mapping (by decide +kernel)
  have hfed : LineFed "# c\r\nkey: v".toList := by
    show LineFed ('#' :: ' ' :: 'c' :: '\r' :: '\n' :: "key: v".toList)
    exact .char rfl (.char rfl (.char rfl (.returnFeed (.of_newlines (by simp [isBreak])))))
  have hlines : ∀ line ∈ Yaml.lines "# c\r\nkey: v".toList, PlainLine line := by
    show ∀ line ∈ [['#', ' ', 'c'], [], ['k', 'e', 'y', ':', ' ', 'v']], PlainLine line
    refine fun line hline => ⟨?_, ?_⟩
    · revert line
      simp [Text.isSpace, Yaml.isBlank]
    · revert line
      simp [MarksFirst, Yaml.isBlank]
  obtain ⟨-, hkept⟩ := shortcut_exact hread
  obtain ⟨-, hparse, hplain⟩ := hkept hcontent
  have hlooks := hplain hfed hlines
  exact ⟨hread, hcontent, hfed, hlines, hlooks, hparse hlooks⟩

/-- Where a CR ends the comment, the mapping behind it is lost. -/
theorem shortcut_swallows_mapping :
    read "# c\rkey: v" = .ok (.mapping [(.string "key", .string "v")]) ∧
      (Document.ofString "# c\rkey: v").HoldsContent ∧
      isBlank "# c\rkey: v" = true ∧ parse "# c\rkey: v" = .ok .empty := by
  have hblank : isBlank "# c\rkey: v" = true := by decide +kernel
  have hread : read "# c\rkey: v" = .ok (.mapping [(.string "key", .string "v")]) :=
    read_eq_single (by decide +kernel)
  have hcontent : (Document.ofString "# c\rkey: v").HoldsContent :=
    holdsContent_of_mapping (by decide +kernel)
  exact ⟨hread, hcontent, hblank, if_pos hblank⟩

end CollectorTemplate.Fragment
