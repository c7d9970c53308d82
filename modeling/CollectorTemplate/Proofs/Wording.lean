/-
Failures told apart by their wording.

Callers look for the phrases "reserved" and "invalid YAML" in the text of a failure.  The second one
tells a malformed fragment from a reserved name.  The first one does not: the text of a malformed
fragment quotes the name of its exporter and parts of the fragment, and these are the user's own.

* `Text.Holds` : a text with a phrase in it;
* `Text.holds_append` : a phrase in two texts is in one of them, where it cannot lie across their
  border;
* `Fragment.Quotes` : a phrase in what the diagnostic quotes of a fragment;
* `assemble_error_wording` : what the two phrases tell of the failure of assembly.

The diagnostic's own words never hold "reserved", so only what is quoted decides.
-/
import CollectorTemplate.Proofs.Assembly
import CollectorTemplate.Proofs.Digits
import Mathlib.Data.List.Infix

namespace CollectorTemplate

namespace Text

/-! ### Phrases in texts -/

/-- Whether a phrase is in a text. -/
def Holds (text phrase : String) : Prop := phrase.toList <:+: text.toList

instance (text phrase : String) : Decidable (Holds text phrase) :=
  inferInstanceAs (Decidable (phrase.toList <:+: text.toList))

/-- The beginning of a text does not continue a phrase. -/
def opens (text phrase : String) : Bool := text.toList.head?.all fun c => c ∉ phrase.toList

/-- The end of a text does not begin a phrase. -/
def closes (text phrase : String) : Bool := text.toList.getLast?.all fun c => c ∉ phrase.toList

/-- What lies in two lists but not across their border lies in one of them. -/
theorem infix_append_iff {α : Type} {part left right : List α}
    (hborder : (∀ c ∈ left.getLast?, c ∉ part) ∨ ∀ c ∈ right.head?, c ∉ part) :
    part <:+: left ++ right ↔ part <:+: left ∨ part <:+: right := by
  constructor
  · rintro ⟨before, after, h⟩
    rcases List.append_eq_append_iff.mp h with ⟨w, hleft, -⟩ | ⟨w, hpart, hright⟩
    · exact .inl ⟨before, w, hleft.symm⟩
    rcases List.append_eq_append_iff.mp hpart with ⟨v, hleft, hsplit⟩ | ⟨v, -, hw⟩
    · -- The part would lie across the border, with `v` before it and `w` after it.
      cases hv : v.getLast? with
      | none =>
        obtain rfl := List.getLast?_eq_none_iff.mp hv
        exact .inr ⟨[], after, by rw [hsplit, hright]; rfl⟩
      | some c =>
        cases hhead : w with
        | nil => exact .inl ⟨before, [], by rw [hsplit, hleft, hhead]; simp⟩
        | cons d tail =>
          exfalso
          have hc : c ∈ part := hsplit ▸ List.mem_append_left _ (List.mem_of_getLast? hv)
          have hd : d ∈ part := by rw [hsplit, hhead]; simp
          rcases hborder with hlast | hfirst
          · exact hlast c (by rw [hleft, List.getLast?_append, hv]; rfl) hc
          · exact hfirst d (by rw [hright, hhead]; rfl) hd
    · exact .inr ⟨v, after, by rw [hright, hw]⟩
  · rintro (h | h)
    · exact h.trans (List.prefix_append _ _).isInfix
    · exact h.trans (List.suffix_append _ _).isInfix

section

variable {left right text phrase : String}

theorem holds_append (hborder : closes left phrase ∨ opens right phrase) :
    Holds (left ++ right) phrase ↔ Holds left phrase ∨ Holds right phrase := by
  unfold Holds
  rw [String.toList_append]
  refine infix_append_iff (hborder.imp (fun h c hc => ?_) fun h c hc => ?_)
  · rw [closes, hc] at h
    simpa using h
  · rw [opens, hc] at h
    simpa using h

theorem holds_left (h : Holds left phrase) : Holds (left ++ right) phrase := by
  unfold Holds
  rw [String.toList_append]
  exact List.IsInfix.trans h (List.prefix_append _ _).isInfix

theorem holds_right (h : Holds right phrase) : Holds (left ++ right) phrase := by
  unfold Holds
  rw [String.toList_append]
  exact List.IsInfix.trans h (List.suffix_append _ _).isInfix

/-- A phrase with a character that a text does not have is not in it. -/
theorem not_holds_of_notMem {c : Char} (hphrase : c ∈ phrase.toList) (htext : c ∉ text.toList) :
    ¬ Holds text phrase := fun h => htext (h.subset hphrase)

/-- Fixed texts are compared by their characters. -/
theorem not_holds_ofList {text phrase : List Char} (h : ¬ phrase <:+: text) :
    ¬ Holds (.ofList text) (.ofList phrase) := by
  unfold Holds
  rwa [String.toList_ofList, String.toList_ofList]

theorem opens_append (hne : left ≠ "") (h : opens left phrase) : opens (left ++ right) phrase := by
  have hlist : left.toList ≠ [] := fun h => hne (String.toList_inj.mp h)
  unfold opens
  rw [String.toList_append, List.head?_append_of_ne_nil _ hlist]
  exact h

theorem closes_append (hne : right ≠ "") (h : closes right phrase) :
    closes (left ++ right) phrase := by
  have hlist : right.toList ≠ [] := fun h => hne (String.toList_inj.mp h)
  unfold closes
  rw [String.toList_append, List.getLast?_append_of_ne_nil _ hlist]
  exact h

/-- A text that neither has a phrase in it nor continues one. -/
def Aside (text phrase : String) : Prop := opens text phrase ∧ ¬ Holds text phrase

theorem Aside.holds_append (h : Aside right phrase) :
    Holds (left ++ right) phrase ↔ Holds left phrase := by
  rw [Text.holds_append (.inr h.1), or_iff_left h.2]

theorem aside_empty (hne : phrase ≠ "") : Aside "" phrase := by
  refine ⟨rfl, fun h => hne ?_⟩
  exact String.toList_inj.mp (List.infix_nil.mp h)

end

end Text

open Text

/-! ### The diagnostic's own words -/

theorem not_holds_toString (n : Nat) : ¬ Holds (toString n) "reserved" := by
  refine not_holds_of_notMem (c := 'r') (by decide) fun h => ?_
  exact absurd (isDigit_of_mem_repr h) (by decide)

namespace Yaml

theorem Mark.not_holds_text (m : Mark) : ¬ Holds m.text "reserved" := by
  show ¬ Holds ("line " ++ toString (m.line + 1) ++ " column " ++ toString (m.column + 1))
    "reserved"
  rw [holds_append (.inl (closes_append (by decide) (by decide))),
    holds_append (.inr (by decide)), holds_append (.inl (by decide))]
  rintro (((h | h) | h) | h)
  · exact absurd h (by decide)
  · exact not_holds_toString _ h
  · exact absurd h (by decide)
  · exact not_holds_toString _ h

/-- The wording of a place continues no message. -/
theorem Mark.aside (m : Mark) : Aside (" at " ++ m.text) "reserved" := by
  refine ⟨opens_append (by decide) (by decide), ?_⟩
  rw [holds_append (.inl (by decide))]
  rintro (h | h)
  · exact absurd h (by decide)
  · exact m.not_holds_text h

theorem Problem.not_holds_text (problem : Problem) : ¬ Holds problem.text "reserved" := by
  cases problem <;> exact not_holds_ofList (by decide)

theorem Context.not_holds_text (context : Context) : ¬ Holds context.text "reserved" := by
  cases context <;> exact not_holds_ofList (by decide)

theorem Fault.aside_placeText (f : Fault) : Aside f.placeText "reserved" := by
  have hempty : Aside "" "reserved" := aside_empty (by decide)
  unfold placeText
  split
  · split
    · split
      · exact hempty
      · rename_i offset _ _
        show Aside (" at position " ++ toString offset) "reserved"
        refine ⟨opens_append (by decide) (by decide), ?_⟩
        rw [holds_append (.inl (by decide))]
        rintro (h | h)
        · exact absurd h (by decide)
        · exact not_holds_toString _ h
    · exact hempty
  · exact f.place.aside

theorem Fault.aside_withinText (f : Fault) : Aside f.withinText "reserved" := by
  have hempty : Aside "" "reserved" := aside_empty (by decide)
  unfold withinText
  split
  · exact hempty
  · rename_i context start _
    have hstart : Aside (if start.isStart || start.samePlace f.place then ""
        else " at " ++ start.text) "reserved" := by
      split
      · exact hempty
      · exact start.aside
    refine ⟨?_, ?_⟩
    · rw [String.append_assoc]
      exact opens_append (by decide) (by decide)
    · rw [hstart.holds_append, holds_append (.inl (by decide))]
      rintro (h | h)
      · exact absurd h (by decide)
      · exact context.not_holds_text h

/-- The text of a fault is made of the diagnostic's own words only. -/
theorem Fault.not_holds_text (f : Fault) : ¬ Holds f.text "reserved" := by
  unfold text
  rw [f.aside_withinText.holds_append, f.aside_placeText.holds_append]
  exact f.problem.not_holds_text

theorem ReadError.holds_placed (message : String) (m : Mark) :
    Holds (placed message m) "reserved" ↔ Holds message "reserved" := by
  unfold placed
  split
  · rfl
  · rw [String.append_assoc, m.aside.holds_append]

/-- Of the causes, only complaints about data quote the text that was read. -/
theorem ReadError.holds_text_iff (e : ReadError) :
    Holds e.text "reserved" ↔ ∃ cause place path, e = .complaint cause place path ∧
      (Holds path.text "reserved" ∨ Holds cause.text "reserved") := by
  cases e with
  | complaint cause place path =>
    have hseparator : ¬ Holds ": " "reserved" := by decide
    have hprefixed : Holds (if path.text = "." then cause.text
          else path.text ++ ": " ++ cause.text) "reserved" ↔
        Holds path.text "reserved" ∨ Holds cause.text "reserved" := by
      split
      · rename_i hroot
        rw [hroot, or_iff_right (by decide)]
      · rw [holds_append (.inl (closes_append (by decide) (by decide))),
          holds_append (.inr (by decide)), or_iff_left hseparator]
    rw [text, holds_placed, hprefixed]
    constructor
    · exact fun h => ⟨cause, place, path, rfl, h⟩
    · rintro ⟨_, _, _, heq, h⟩
      cases heq
      exact h
  | broken cause =>
    refine iff_of_false ?_ (by rintro ⟨_, _, _, heq, -⟩; cases heq)
    cases cause with
    | fault f => exact f.not_holds_text
    | unknownAnchor place =>
      rw [text, holds_placed]
      exact not_holds_ofList (by decide)
  | recursionLimit place =>
    refine iff_of_false ?_ (by rintro ⟨_, _, _, heq, -⟩; cases heq)
    rw [text, holds_placed]
    exact not_holds_ofList (by decide)
  | repetitionLimit =>
    exact iff_of_false (not_holds_ofList (by decide)) (by rintro ⟨_, _, _, heq, -⟩; cases heq)
  | moreDocuments =>
    exact iff_of_false (not_holds_ofList (by decide +kernel))
      (by rintro ⟨_, _, _, heq, -⟩; cases heq)

end Yaml

/-! ### What is quoted -/

namespace Fragment

theorem ConversionError.holds_text_iff (e : ConversionError) :
    Holds e.text "reserved" ↔ ∃ key, e = .duplicateKey key ∧ Holds key "reserved" := by
  cases e with
  | collectionKey =>
    exact iff_of_false (not_holds_ofList (by decide)) (by rintro ⟨_, heq, -⟩; cases heq)
  | duplicateKey key =>
    have hbefore : ¬ Holds "duplicate mapping key '" "reserved" := not_holds_ofList (by decide)
    have hafter : ¬ Holds "'" "reserved" := by decide
    show Holds ("duplicate mapping key '" ++ key ++ "'") "reserved" ↔ _
    rw [holds_append (.inr (by decide)), holds_append (.inl (by decide)), or_iff_left hafter,
      or_iff_right hbefore]
    constructor
    · exact fun h => ⟨key, rfl, h⟩
    · rintro ⟨_, heq, h⟩
      cases heq
      exact h

/-- A phrase is in what the diagnostic of a malformed fragment quotes of it: the path to the data
that reading does not accept and the complaint about it, or a key that is repeated. -/
def Quotes (raw phrase : String) : Prop :=
  (∃ cause place path, read raw = .error (.complaint cause place path) ∧
    (Holds path.text phrase ∨ Holds cause.text phrase)) ∨
  ∃ data key, read raw = .ok data ∧ convert data = .error (.duplicateKey key) ∧ Holds key phrase

/-- A diagnostic holds "reserved" iff what it quotes does. -/
theorem holds_detail_iff {raw : String} {cause : SyntaxError} (h : parse raw = .error cause) :
    Holds cause.detail "reserved" ↔ Quotes raw "reserved" := by
  unfold parse at h
  split at h
  · cases h
  cases hread : read raw with
  | error e =>
    rw [hread] at h
    cases h
    show Holds e.text "reserved" ↔ _
    rw [e.holds_text_iff, Quotes, hread]
    simp
  | ok data =>
    rw [hread] at h
    cases hconvert : convert data with
    | ok tree => simp [hconvert] at h
    | error e =>
      simp only [hconvert] at h
      cases h
      show Holds e.text "reserved" ↔ _
      rw [e.holds_text_iff, Quotes, hread]
      simp [hconvert]

end Fragment

/-! ### The text of a failure -/

namespace Error

theorem holds_invalid_of_malformed (name : String) (cause : SyntaxError) :
    Holds (invalidYaml name cause).text "invalid YAML" := by
  refine holds_right (holds_left ?_)
  decide

theorem holds_reserved_of_malformed (name : String) (cause : SyntaxError) :
    Holds (invalidYaml name cause).text "reserved" ↔
      Holds name "reserved" ∨ Holds cause.detail "reserved" := by
  show Holds ("exporter '" ++ name ++ "': " ++ ("invalid YAML: " ++ cause.detail)) "reserved" ↔ _
  rw [holds_append (.inl (closes_append (by decide) (by decide))), holds_append (.inr (by decide)),
    holds_append (.inl (by decide)), holds_append (.inl (by decide))]
  have hexporter : ¬ Holds "exporter '" "reserved" := by decide
  have hseparator : ¬ Holds "': " "reserved" := by decide
  have hkind : ¬ Holds "invalid YAML: " "reserved" := not_holds_ofList (by decide)
  tauto

theorem holds_of_reserved (name : String) : Holds (reservedName name).text "reserved" := by
  show Holds ("exporter name '" ++ name ++ "' is reserved and cannot be used") "reserved"
  exact holds_right (by decide)

theorem not_holds_invalid_of_system {name : String} (h : name ∈ ReservedNames.system.names) :
    ¬ Holds (reservedName name).text "invalid YAML" := by
  obtain rfl : name = "prometheus" := by simpa [ReservedNames.system] using h
  exact (by decide +kernel)

end Error

section

variable (ambient : Option String) (sources : Sources)

/-- Assembly fails for a name of the service's own, or for an entry whose fragment is malformed. -/
theorem assemble_error_cases {reserved : ReservedNames} {e : Error}
    (h : (assemble reserved ambient sources).value = .error e) :
    (∃ name ∈ reserved.names, e = .reservedName name) ∨
      ∃ name raw cause, (name, raw) ∈ sources ∧ Fragment.parse raw = .error cause ∧
        e = .invalidYaml name cause := by
  by_cases hnames : ∀ name ∈ Entries.keys sources, name ∉ reserved.names
  · by_cases hparse : ∀ source ∈ sources, ∃ tree, Fragment.parse source.2 = .ok tree
    · obtain ⟨assembly, hvalue, -⟩ := assemble_of_sound reserved ambient sources hnames hparse
      exact absurd (hvalue.symm.trans h) (by simp)
    · obtain ⟨name, raw, cause, hmem, hbad, hvalue⟩ :=
        assemble_of_malformed reserved ambient sources hnames hparse
      exact .inr ⟨name, raw, cause, hmem, hbad, Except.error.inj (h.symm.trans hvalue)⟩
  · push Not at hnames
    obtain ⟨name, -, hname, hvalue⟩ := assemble_of_reserved reserved ambient sources hnames
    exact .inl ⟨name, hname, Except.error.inj (h.symm.trans hvalue)⟩

/-- The phrase "invalid YAML" tells the two kinds of failure apart.  The phrase "reserved" is in the
text of every reserved name, but also in that of a malformed fragment if the name of its exporter
has it, or what the diagnostic quotes of the fragment. -/
theorem assemble_error_wording {e : Error}
    (h : (assemble .system ambient sources).value = .error e) :
    (Holds e.text "invalid YAML" ↔ e.isInvalidYaml) ∧
    (e.isReservedName ↔ ¬ Holds e.text "invalid YAML") ∧
    (Holds e.text "reserved" ↔ e.isReservedName ∨
      ∃ name raw cause, (name, raw) ∈ sources ∧ Fragment.parse raw = .error cause ∧
        e = .invalidYaml name cause ∧
        (Holds name "reserved" ∨ Fragment.Quotes raw "reserved")) := by
  rcases assemble_error_cases ambient sources h with
    ⟨name, hname, rfl⟩ | ⟨name, raw, cause, hmem, hbad, rfl⟩
  · have hinvalid := Error.not_holds_invalid_of_system hname
    refine ⟨iff_of_false hinvalid Bool.false_ne_true, iff_of_true rfl hinvalid, ?_⟩
    exact iff_of_true (Error.holds_of_reserved name) (.inl rfl)
  · have hinvalid := Error.holds_invalid_of_malformed name cause
    refine ⟨iff_of_true hinvalid rfl, iff_of_false Bool.false_ne_true (not_not_intro hinvalid), ?_⟩
    rw [Error.holds_reserved_of_malformed, Fragment.holds_detail_iff hbad]
    constructor
    · exact fun hquoted => .inr ⟨name, raw, cause, hmem, hbad, rfl, hquoted⟩
    · rintro (hreserved | ⟨_, other, _, -, hother, heq, hquoted⟩)
      · exact absurd hreserved Bool.false_ne_true
      · obtain ⟨rfl, rfl⟩ := Error.invalidYaml.inj heq
        rwa [← Fragment.holds_detail_iff hother, Fragment.holds_detail_iff hbad] at hquoted

end

/-- A name of the service's own is told with the one phrase and without the other. -/
theorem assemble_error_wording_of_reserved :
    (assemble .system none [("prometheus", "a: 1")]).value = .error (.reservedName "prometheus") ∧
      Holds (Error.reservedName "prometheus").text "reserved" ∧
      ¬ Holds (Error.reservedName "prometheus").text "invalid YAML" := by
  have hvalue : (assemble .system none [("prometheus", "a: 1")]).value =
      .error (.reservedName "prometheus") := rfl
  obtain ⟨-, hinvalid, hreserved⟩ := assemble_error_wording none _ hvalue
  exact ⟨hvalue, hreserved.mpr (.inl rfl), hinvalid.mp rfl⟩

theorem parse_unclosed : ∃ cause, Fragment.parse "[" = .error cause := by
  have hmalformed : (Fragment.parse "[").isOk = false := by decide +kernel
  cases hparse : Fragment.parse "[" with
  | error cause => exact ⟨cause, rfl⟩
  | ok tree =>
    rw [hparse] at hmalformed
    exact nomatch hmalformed

/-- The malformed fragment of an exporter with the phrase in its name is told with the phrase. -/
theorem reserved_told_of_malformed :
    ¬ ∀ sources e, (assemble .system none sources).value = .error e →
      (Holds e.text "reserved" ↔ e.isReservedName) := by
  intro hclaim
  obtain ⟨cause, hparse⟩ := parse_unclosed
  have hvalue : (assemble .system none [("reserved-port", "[")]).value =
      .error (.invalidYaml "reserved-port" cause) := by
    rw [assemble_of_not_reserved _ _ _ (by decide)]
    exact parseAll_cons_of_error hparse
  have hname : Holds "reserved-port" "reserved" := by decide
  have htext := (Error.holds_reserved_of_malformed "reserved-port" cause).mpr (.inl hname)
  exact absurd ((hclaim _ _ hvalue).mp htext) Bool.false_ne_true

end CollectorTemplate
