/-
Fragments that are read.

A fragment that is not taken for blank is parsed as the reader has it.  Whether a text that is read
has content, the properties of a node without content, or nothing at all at its root is told by its
lines, as the reader ends them.

* `Fragment.parse_of_isBlank`, `Fragment.parse_of_read`, `Fragment.parse_of_read_error` : the ways in
  which a fragment is parsed;
* `Fragment.content_iff` : the texts with content are those that are not silent, but for a node of
  properties alone;
* `Fragment.isSilent_iff_of_read`, `Fragment.eq_null_of_isSilent` : the texts with nothing are the
  silent ones, and they are read as null.
-/
import CollectorTemplate.Fragment
import CollectorTemplate.Proofs.Yaml.Document

namespace CollectorTemplate.Fragment

open Yaml

variable {raw : String} {data : Untyped}

/-! ### Parsing -/

theorem parse_of_isBlank (h : isBlank raw = true) : parse raw = .ok .empty := by
  rw [parse, if_pos h]

theorem parse_of_read_error {e : ReadError} (hblank : isBlank raw = false)
    (h : read raw = .error e) : parse raw = .error (.ofReadError e) := by
  rw [parse, hblank, if_neg Bool.false_ne_true, h]

theorem parse_of_read (hblank : isBlank raw = false) (h : read raw = .ok data) :
    parse raw = (convert data).mapError fun e => ⟨e.text, none⟩ := by
  rw [parse, hblank, if_neg Bool.false_ne_true, h]
  dsimp only
  cases convert data with
  | error e => rfl
  | ok tree => rfl

/-! ### What is at the root -/

/-- A text that is read has something at its root just if a line of it is not idle, but for the
properties of a node without content. -/
theorem content_iff (h : read raw = .ok data) :
    (Document.ofString raw).HoldsContent ↔
      isSilent raw.toList = false ∧ ¬(Document.ofString raw).OnlyProperties := by
  obtain ⟨htail, hmore⟩ := Document.decode_accepts h
  constructor
  · -- An empty plain scalar is no content, whether or not it has properties.
    rintro ⟨root, hroot, hcontent⟩
    refine ⟨?_, ?_⟩
    · rw [← Bool.not_eq_true]
      intro hsilent
      rcases Document.root_of_silent htail hmore hsilent with hnone | ⟨place, hempty, -⟩
      · rw [hroot] at hnone
        nomatch hnone
      · obtain rfl := Option.some.inj (hroot.symm.trans hempty)
        rcases hcontent with h | h
        · exact h rfl
        · exact h rfl
    · rintro ⟨place, tag, hempty, -⟩
      obtain rfl := Option.some.inj (hroot.symm.trans hempty)
      rcases hcontent with h | h
      · exact h rfl
      · exact h rfl
  · rintro ⟨hsilent, hproperties⟩
    exact (Document.root_of_not_silent htail hmore hsilent).resolve_right hproperties

/-- A text that is read holds nothing at its root just if no line of it holds any part of a node. -/
theorem isSilent_iff_of_read (h : read raw = .ok data) :
    isSilent raw.toList = true ↔
      ¬(Document.ofString raw).HoldsContent ∧ ¬(Document.ofString raw).OnlyProperties := by
  rw [content_iff h]
  constructor
  · intro hsilent
    refine ⟨fun hcontent => ?_, ?_⟩
    · rw [hsilent] at hcontent
      nomatch hcontent.1
    · rintro ⟨place, tag, hroot, hsome⟩
      obtain ⟨htail, hmore⟩ := Document.decode_accepts h
      rcases Document.root_of_silent htail hmore hsilent with hnone | ⟨place', hempty, hanchors⟩
      · rw [hroot] at hnone
        nomatch hnone
      · obtain rfl : tag = none := by
          rw [hroot] at hempty
          injection hempty with hempty
          injection hempty
        exact hsome.elim (fun htag => htag rfl) fun hanchor => hanchor hanchors
  · rintro ⟨hcontent, hproperties⟩
    rw [← Bool.not_eq_false]
    exact fun hsilent => hcontent ⟨hsilent, hproperties⟩

theorem eq_null_of_isSilent (h : read raw = .ok data)
    (hsilent : isSilent raw.toList = true) : data = .null := by
  obtain ⟨htail, hmore⟩ := Document.decode_accepts h
  rw [read, Document.data, Document.decode, htail, hmore] at h
  rcases Document.root_of_silent htail hmore hsilent with hroot | ⟨place, hroot, -⟩
  · rw [hroot] at h
    exact (Except.ok.inj h).symm
  · have hnull : ((Document.ofString raw).untyped .value depthLimit .root
        (.scalar place none .plain [])).run' 0 = .ok .null := by
      rw [Document.untyped]
      rfl
    rw [hroot] at h
    dsimp only at h
    rw [hnull] at h
    exact (Except.ok.inj h).symm

end CollectorTemplate.Fragment
