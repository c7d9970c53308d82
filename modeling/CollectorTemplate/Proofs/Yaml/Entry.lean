/-
Documents of one entry.

A key, a colon and a word on the only line of a text are a mapping with one entry, whether a line
feed follows or the text ends at once.  Its data are what the word means.

* `Plain.scan_lineEnd` : a word is read up to the end of the text;
* `Lexing.run_entry` : the tokens of the text;
* `Document.ofString_entry` : its document;
* `Document.data_entry` : its data, or a complaint about the word.
-/
import CollectorTemplate.Proofs.Yaml.Data

namespace CollectorTemplate.Yaml

open Scalar

/-- The line feed at the end of the only line, if there is one. -/
def lineEnd (feed : Bool) : List Char := if feed then ['\n'] else []

/-- The text of an entry and nothing else. -/
def onlyEntry (word : List Char) (feed : Bool) : List Char :=
  'k' :: ':' :: ' ' :: (word ++ lineEnd feed)

/-- Where the word of the entry begins. -/
def wordPlace : Mark := ⟨3, 3, 0, 3⟩

variable {word : List Char}

/-! ### Tokens -/

/-- A word is read up to the end of the text, and a line feed counts to what was read over. -/
theorem Plain.scan_lineEnd (indent : Int) (mark : Mark) (hplain : plainHolds word = true)
    (hword : word ≠ []) (hindent : indent ≤ mark.column) (feed : Bool) :
    ∃ stop, Plain.scan false indent ⟨word ++ lineEnd feed, mark⟩ =
      .ok (word, ⟨[], stop⟩, feed) := by
  have hnil : Begins [] := fun _ hc => nomatch hc
  cases feed with
  | true => exact ⟨_, scan_line (k := 0) hplain hword hindent (.inr rfl) hnil⟩
  | false =>
    obtain ⟨q, hscan, hbroken, -, hq⟩ :=
      scanFrom_text (indent + 1) mark mark [] hplain hword (by omega)
    refine ⟨mark.across word, ?_⟩
    show Plain.scan false indent ⟨word ++ [], mark⟩ = _
    rw [Plain.scan, hscan, scanFrom, ok_bind]
    dsimp only
    rw [hq, hbroken, List.reverse_reverse]
    rfl

namespace Lexing

/-- The tokens in front of the word, latest first. -/
def leading : List Lexeme :=
  [⟨.value, ⟨1, 1, 0, 1⟩, ⟨2, 2, 0, 2⟩⟩, ⟨.scalar .plain ['k'], {}, ⟨1, 1, 0, 1⟩⟩, ⟨.key, {}, {}⟩,
    ⟨.blockMapping, {}, {}⟩]

/-- The key and its colon. -/
theorem run_key (rest : List Char) :
    Run { cursor := .start ('k' :: ':' :: ' ' :: rest) }
      (resting ⟨' ' :: rest, ⟨2, 2, 0, 2⟩⟩ leading 0 [-1] false) := by
  have hkey : step { cursor := .start ('k' :: ':' :: ' ' :: rest) } =
      .ok (atColon (' ' :: rest) ⟨1, 1, 0, 1⟩ {} ⟨.scalar .plain ['k'], {}, ⟨1, 1, 0, 1⟩⟩ [] (-1)
        []) := rfl
  exact .head ⟨rfl, hkey⟩ (.single ⟨rfl, rfl⟩)

/-- The word behind a space. -/
theorem step_word (hfits : Fits .plain word) (feed : Bool) (lexemes : List Lexeme) :
    ∃ stop, (resting ⟨' ' :: (word ++ lineEnd feed), ⟨2, 2, 0, 2⟩⟩ lexemes 0 [-1] false).step =
      .ok (resting ⟨[], stop⟩ (⟨.scalar .plain word, wordPlace, stop⟩ :: lexemes) 0 [-1] feed) := by
  have hbegins : Begins (word ++ lineEnd feed) := begins_written hfits 0 _
  have hreach := reaches_spaces ⟨2, 2, 0, 2⟩ lexemes 0 [-1] false 1 hbegins
  obtain ⟨stop, hscan⟩ := Plain.scan_lineEnd 0 wordPlace hfits.1 hfits.2 (by decide) feed
  refine ⟨stop, (hreach.step_eq (Int.natCast_nonneg _)).trans ?_⟩
  have htail : ∀ d ∈ (lineEnd feed).head?, d = ':' ∨ d = '\n' := by
    intro d hd
    cases feed with
    | true => exact .inr (Option.some.inj hd).symm
    | false => nomatch hd
  have hcursor : word ++ lineEnd feed = written 0 .plain word ++ lineEnd feed := rfl
  rw [take_eq_scalar (lineEnd feed) hfits (fun _ => htail) rfl hcursor, scalar, plainScalar,
    savePending_resting, ok_bind]
  change (Plain.scan false 0 ⟨word ++ lineEnd feed, wordPlace⟩ >>= _) >>= _ = _
  rw [hscan]
  rfl

/-- The end of the text ends the mapping. -/
theorem step_end (stop : Mark) (lexemes : List Lexeme) (keyAllowed : Bool) :
    ∃ t last, (resting ⟨[], stop⟩ lexemes 0 [-1] keyAllowed).step = .ok t ∧ t.ended = true ∧
      t.lexemes = ⟨.streamEnd, last, last⟩ :: ⟨.blockEnd, last, last⟩ :: lexemes := by
  have hnil : Begins [] := fun _ hc => nomatch hc
  have hreach := reaches_spaces stop lexemes 0 [-1] keyAllowed 0 hnil
  obtain ⟨index, offset, line, column⟩ := stop
  rw [show spaces 0 ++ [] = ([] : List Char) from rfl] at hreach
  rw [hreach.step_eq (Int.natCast_nonneg column)]
  cases column with
  | zero => exact ⟨_, _, rfl, rfl, rfl⟩
  | succ column => exact ⟨_, _, rfl, rfl, rfl⟩

/-- The tokens of an entry. -/
theorem run_entry (hfits : Fits .plain word) (feed : Bool) :
    ∃ t stop last, Run { cursor := .start (onlyEntry word feed) } t ∧ t.ended = true ∧
      t.lexemes = ⟨.streamEnd, last, last⟩ :: ⟨.blockEnd, last, last⟩ ::
        ⟨.scalar .plain word, wordPlace, stop⟩ :: leading := by
  obtain ⟨stop, hword⟩ := step_word hfits feed leading
  obtain ⟨t, last, hend, hended, hlexemes⟩ :=
    step_end stop (⟨.scalar .plain word, wordPlace, stop⟩ :: leading) feed
  exact ⟨t, stop, last, ((run_key _).tail ⟨rfl, hword⟩).tail ⟨rfl, hend⟩, hended, hlexemes⟩

end Lexing

/-! ### Documents -/

theorem all_isReadable_onlyEntry (hfits : Fits .plain word) (feed : Bool) :
    (onlyEntry word feed).all isReadable = true := by
  have hprintable : word.all isPrintable = true := by
    have hplain := hfits.1
    simp only [plainHolds, Bool.and_eq_true] at hplain
    exact hplain.1.1.1
  have hword := all_isReadable_of_isPrintable hprintable
  have hlead : ['k', ':', ' '].all isReadable = true := rfl
  have hend : (lineEnd feed).all isReadable = true := by cases feed <;> rfl
  show (['k', ':', ' '] ++ (word ++ lineEnd feed)).all isReadable = true
  rw [List.all_append, List.all_append, hlead, hword, hend]
  rfl

namespace Document

/-- The document of an entry. -/
theorem ofString_entry (hfits : Fits .plain word) (feed : Bool) :
    Document.ofString (.ofList (onlyEntry word feed)) =
      { root := some (.mapping {} none
          [(.scalar {} none .plain ['k'], .scalar wordPlace none .plain word)]), size := 4 } := by
  obtain ⟨t, stop, last, hrun, hended, hlexemes⟩ := Lexing.run_entry hfits feed
  have hsource : Source.ofString (.ofList (onlyEntry word feed)) = ⟨onlyEntry word feed, none⟩ := by
    rw [Source.ofString, String.toList_ofList]
    exact if_pos (all_isReadable_onlyEntry hfits feed)
  have hread : TokenStream.ofString (.ofList (onlyEntry word feed)) =
      ⟨t.lexemes.reverse, none⟩ := by
    rw [TokenStream.ofString, hsource]
    exact TokenStream.read_of_run hrun hended rfl (Nat.lt_succ_self _)
  rw [Document.ofString, DocumentEvents.ofString, hread, hlexemes]
  rfl

variable (d : Document) (s : Strictness)

/-- A word is read as what it means. -/
theorem untyped_word (depth : Nat) (path : Path) (place : Mark) (word : List Char) :
    d.untyped s depth path (.scalar place none .plain word) =
      match meaningData s.expected word (resolve word) with
      | .ok value => pure value
      | .error cause => throw (.complaint cause place path) := by
  unfold untyped
  simp only [target, pure_bind]
  rfl

/-- The data of an entry are a mapping from its key to what the word means. -/
theorem data_entry (hfits : Fits .plain word) (feed : Bool) :
    (Document.ofString (.ofList (onlyEntry word feed))).data .value =
      match meaningData Strictness.value.expected word (resolve word) with
      | .ok value => .ok (.mapping [(.string "k", value)])
      | .error cause => .error (.complaint cause wordPlace (.entry .root ['k'])) := by
  have hkey (d : Document) (depth : Nat) (path : Path) :
      d.untyped .value depth path (.scalar {} none .plain ['k']) = pure (.string "k") :=
    untyped_word d .value depth path {} ['k']
  have hword (d : Document) := untyped_word d .value 127 (.entry .root ['k']) wordPlace word
  rw [ofString_entry hfits feed, data, decode]
  unfold untyped
  simp only [target, pure_bind, entries, hkey, valuePath, hword, depthLimit]
  cases meaningData Strictness.value.expected word (resolve word) with
  | ok value => rfl
  | error cause => rfl

end Document

end CollectorTemplate.Yaml
