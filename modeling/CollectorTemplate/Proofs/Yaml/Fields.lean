/-
Records that are read alike.

Two documents are compared whose records have the same entries up to some point.  A record that is
read directly looks at the keys of its entries first, and only where a key names a field at the
value; a record that becomes data first reads every value.

* `Document.leads_record` : a record is read as the same where an entry more is unknown, or where a
  field that differs is read as the same;
* `Document.readPairs` : entries as data, in a record and in a mapping alike;
* `Document.leads_readPairs_extra`, `Document.leads_readPairs_first` : with an entry more, and with
  a value that differs;
* `Document.leads_loose` : a record that becomes data first.
-/
import CollectorTemplate.Proofs.Yaml.Alike

namespace CollectorTemplate

namespace Yaml

/-- Whether a key has a text, as a key of a record that is read directly. -/
def Document.writes (d : Document) (name : String) (key : Node) : Bool :=
  (d.content key).text? == some name

/-- Entries whose keys are alike and in `keys`, and whose values are related by `inner`. -/
def Node.ValuesDiffer (same : Nat → Nat → Prop) (keys : Node → Bool) (inner : Node → Node → Prop)
    (a b : Node × Node) : Prop :=
  keys a.1 = true ∧ Alike same a.1 b.1 ∧ inner a.2 b.2

namespace Document

section

variable {d d' : Document} {same : Nat → Nat → Prop} {more more' : Nat}
/-! ### Records -/

mutual

/-- Nodes that are alike have no missing parts. -/
theorem breakage?_of_alike {node : Node} :
    (node' : Node) → Node.Alike same node node' → node'.breakage? = none
  | .scalar .., _ | .reference .., _ => rfl
  | .sequence _ _ items, h => by
    cases h with
    | sequence hitems => exact itemsBreakage?_of_alike items hitems
  | .mapping _ _ entries, h => by
    cases h with
    | mapping hentries => exact entriesBreakage?_of_alike entries hentries
  | .broken _, h => nomatch h

theorem itemsBreakage?_of_alike {items : List Node} :
    (items' : List Node) → List.Forall₂ (Node.Alike same) items items' →
      Node.itemsBreakage? items' = none
  | [], _ => rfl
  | item :: items', h => by
    cases h with
    | cons hitem hitems =>
      rw [Node.itemsBreakage?, breakage?_of_alike item hitem, itemsBreakage?_of_alike items' hitems]
      rfl

theorem entriesBreakage?_of_alike {entries : List (Node × Node)} :
    (entries' : List (Node × Node)) → List.Forall₂ (AlikeEntries same) entries entries' →
      Node.entriesBreakage? entries' = none
  | [], _ => rfl
  | (key, value) :: entries', h => by
    cases h with
    | cons hentry hentries =>
      cases hentry with
      | mk hkey hvalue =>
        rw [Node.entriesBreakage?, breakage?_of_alike key hkey, breakage?_of_alike value hvalue,
          entriesBreakage?_of_alike entries' hentries]
        rfl

end

section

variable {α β : Type} {place : Mark} {path : Path}

theorem blame_bind (work : ExceptT Complaint Reads α) (next : α → ExceptT Complaint Reads β) :
    blame place path (work >>= next) =
      blame place path work >>= fun a => blame place path (next a) := by
  unfold blame
  rw [ExceptT.run_bind, bind_assoc, bind_assoc]
  refine bind_congr fun result => ?_
  cases result with
  | ok value => rfl
  | error cause => rfl

theorem blame_lift (work : Reads α) :
    blame place path (work : ExceptT Complaint Reads α) = work := by
  change ((Except.ok <$> work) >>= fun result => _) = work
  rw [bind_map_left]
  exact bind_pure work

end

/-- What is related when it is read is related when it is taken up. -/
theorem leads_taken_rel {α α' β β' : Type} {rel : β → β' → Prop} {given : α → α' → Prop}
    {step : Reads β} {step' : Reads β'} (h : Leads d more more' rel step step') {take : β → α}
    {take' : β' → α'} (htake : ∀ value value', rel value value' → given (take value) (take' value'))
    (place place' : Mark) (path path' : Path) :
    Leads d more more' given
      (blame place path (do let value ← (step : Reads _); return take value))
      (blame place' path' (do let value ← (step' : Reads _); return take' value)) := by
  rw [blame_bind, blame_bind, blame_lift, blame_lift]
  exact h.bind fun value value' hvalue => .pure (htake value value' hvalue)

/-- What is read as the same is taken up as the same. -/
theorem leads_taken {α β : Type} {step step' : Reads β} (h : Leads d more more' Eq step step')
    (take : β → α) (place place' : Mark) (path path' : Path) :
    Leads d more more' Eq
      (blame place path (do let value ← (step : Reads _); return take value))
      (blame place' path' (do let value ← (step' : Reads _); return take value)) :=
  leads_taken_rel h (fun _ _ => congrArg take) place place' path path'

/-- What is read of a field is the same, and so are complaints about it. -/
def FieldAlike {α : Type} (same : Nat → Nat → Prop) (d : Document) (more : Nat)
    (read read' : α → String → Path → Node → ExceptT Complaint Reads α) : Prop :=
  ∀ record name path path' node node', Node.Alike same node node' → ∀ place place' within within',
    Leads d more more Eq (blame place within (read record name path node))
      (blame place' within' (read' record name path' node'))

/-- How the entries of two records may go on that are read directly: they end, or the second record
has an entry more that is unknown, or a field differs. -/
inductive Change (d : Document) (same : Nat → Nat → Prop) (fields : List String)
    (inner : String → Node → Node → Prop) : List (Node × Node) → List (Node × Node) → Prop
  | nothing : Change d same fields inner [] []
  | unknown {key value : Node} {name : String} {left right : List (Node × Node)}
      (hkey : key.text? = some name) (hname : name ∉ fields) (hvalue : value.breakage? = none)
      (hrest : List.Forall₂ (AlikeEntries same) left right) :
      Change d same fields inner left ((key, value) :: right)
  | inner {field : String} {a b : Node × Node} {left right : List (Node × Node)}
      (hfield : field ∈ fields) (hfirst : Node.ValuesDiffer same (d.writes field) (inner field) a b)
      (hrest : List.Forall₂ (AlikeEntries same) left right) :
      Change d same fields inner (a :: left) (b :: right)

/-- Records whose entries are alike up to some point. -/
def EntriesAlike (same : Nat → Nat → Prop) (rest : List (Node × Node) → List (Node × Node) → Prop)
    (r r' : Mark × Path × List (Node × Node)) : Prop :=
  ∃ n, Until (AlikeEntries same) rest n r.2.2 r'.2.2

/-- A scalar has the same text in every document. -/
theorem text_of_text? {node : Node} {name : String} (h : node.text? = some name) (d : Document)
    (expected : String) (path : Path) : d.text expected path node = Pure.pure name.toList := by
  cases node with
  | scalar place tag style text =>
    obtain rfl := Option.some.inj h
    rw [String.toList_ofList]
    rfl
  | _ => nomatch h

/-- The entry of a field that is not known is passed over. -/
theorem fillRecord_unknown {α : Type} {fields : List String}
    {read : α → String → Path → Node → ExceptT Complaint Reads α} {place : Mark} {path : Path}
    {seen : List String} {record : α} {key value : Node} {name : String}
    {rest : List (Node × Node)} (hkey : key.text? = some name) (hname : name ∉ fields)
    (hvalue : value.breakage? = none) :
    d.fillRecord fields read place path seen record ((key, value) :: rest) =
      d.fillRecord fields read place path seen record rest := by
  rw [fillRecord, text_of_text? hkey, pure_bind, String.ofList_toList, hvalue]
  simp [hname]

theorem isNothing_of_alike {node node' : Node} (h : Node.Alike same node node') :
    isNothing node' = isNothing node := by
  cases h with
  | @scalar _ _ tag style text => cases style <;> rfl
  | _ => rfl

theorem leads_recordEntries_mapping {rest : List (Node × Node) → List (Node × Node) → Prop}
    {n : Nat} {entries entries' : List (Node × Node)}
    (h : Until (AlikeEntries same) rest n entries entries') (name : String) (depth : Nat)
    (path path' : Path) (place place' : Mark) (tag : Option TagText) :
    Leads d more more (EntriesAlike same rest)
      (d.recordEntries name depth path (.mapping place tag entries))
      (d'.recordEntries name depth path' (.mapping place' tag entries')) := by
  cases depth with
  | zero => exact .throw
  | succ depth => exact .pure ⟨n, h⟩

section

variable (hmatches : Matches same d d')

include hmatches

section

variable (hroom : d.jumpLimit + more ≤ d'.jumpLimit)

include hroom

theorem leads_recordEntries (name : String) (depth : Nat) (path path' : Path) {node node' : Node}
    (h : Node.Alike same node node') :
    Leads d more more (EntriesAlike same AtEnd) (d.recordEntries name depth path node)
      (d'.recordEntries name depth path' node') := by
  unfold recordEntries
  refine (leads_target hmatches hroom h path path').bind fun r r' hr => ?_
  obtain ⟨node, path⟩ := r
  obtain ⟨node', path'⟩ := r'
  cases hr with
  | reference | sequence => exact .throw
  | @scalar _ _ tag style text =>
    dsimp only
    split
    · exact .pure ⟨_, .now .mk⟩
    · cases (scalarMeaning tag style text).bind (meaningData ("struct " ++ name) text) with
      | ok value => exact .throw
      | error cause => exact .throw
  | mapping hentries =>
    dsimp only
    split
    · exact .throw
    · exact .pure ⟨_, .of_forall₂ hentries⟩

theorem leads_optionalText {node node' : Node} (h : Node.Alike same node node')
    (path path' : Path) (place place' : Mark) (within within' : Path) :
    Leads d more more Eq (blame place within (d.optionalText path node))
      (blame place' within' (d'.optionalText path' node')) := by
  unfold optionalText
  rw [blame_bind, blame_bind, blame_lift, blame_lift]
  refine (leads_target hmatches hroom h path path').bind fun r r' hr => ?_
  rw [blame_bind, blame_bind, isNothing_of_alike hr]
  have hdecided : Leads d more more Eq
      (blame place within (ExceptT.mk (Pure.pure (isNothing r.1))))
      (blame place' within' (ExceptT.mk (Pure.pure (isNothing r.1)))) := by
    cases isNothing r.1 with
    | ok nothing => exact .pure rfl
    | error cause => exact .throw
  refine hdecided.bind ?_
  rintro nothing _ rfl
  cases nothing with
  | true => exact .pure rfl
  | false =>
    simp only [Bool.false_eq_true, if_false]
    rw [blame_bind, blame_bind, blame_lift, blame_lift]
    refine (leads_string hmatches hroom hr _ _).bind ?_
    rintro text _ rfl
    exact .pure rfl

/-- The entries of records are read alike up to where they cease to be. -/
theorem leads_fillRecord {α : Type} {fields : List String}
    {read read' : α → String → Path → Node → ExceptT Complaint Reads α}
    (hread : FieldAlike same d more read read')
    {rest : List (Node × Node) → List (Node × Node) → Prop} {rel : α → α → Prop}
    {place place' : Mark} {path path' : Path} {n : Nat} {seen : List String} {record : α}
    {pairs pairs' : List (Node × Node)}
    (hrest : ∀ seen record left right, rest left right →
      Leads d more more' rel (d.fillRecord fields read place path seen record left)
        (d'.fillRecord fields read' place' path' seen record right))
    (h : Until (AlikeEntries same) rest n pairs pairs') :
    Leads d more more' rel (d.fillRecord fields read place path seen record pairs)
      (d'.fillRecord fields read' place' path' seen record pairs') := by
  induction h generalizing seen record with
  | now h => exact hrest _ _ _ _ h
  | later hsame _ ih =>
    cases hsame with
    | mk hkey hvalue =>
      rw [fillRecord, fillRecord]
      refine (leads_text hmatches hroom hkey _ _ _).bind ?_
      rintro text _ rfl
      dsimp only
      split
      · split
        · exact .throw
        · refine (hread _ _ _ _ _ _ hvalue _ _ _ _).bind ?_
          rintro record _ rfl
          exact ih
      · rw [breakage?_of_alike _ hvalue]
        split
        · exact .throw
        · exact ih

theorem leads_fillRecord_alike {α : Type} {fields : List String}
    {read read' : α → String → Path → Node → ExceptT Complaint Reads α}
    (hread : FieldAlike same d more read read') {place place' : Mark} {path path' : Path}
    {seen : List String} {record : α} {pairs pairs' : List (Node × Node)}
    (h : List.Forall₂ (AlikeEntries same) pairs pairs') :
    Leads d more more Eq (d.fillRecord fields read place path seen record pairs)
      (d'.fillRecord fields read' place' path' seen record pairs') := by
  refine leads_fillRecord hmatches hroom hread ?_ (.of_forall₂ h)
  rintro seen record _ _ ⟨⟩
  exact .pure rfl

/-- A key that has the name of a field is read as that name. -/
theorem leads_text_writes {key key' : Node} {field : String} (hkey : d.writes field key = true)
    (h : Node.Alike same key key') (expected : String) (path path' : Path) :
    Leads d more more (fun text text' => text = text' ∧ String.ofList text = field)
      (d.text expected path key) (d'.text expected path' key') := by
  refine (leads_text hmatches hroom h _ path path').imp ?_
  rintro text _ ⟨_, _, hrun⟩ rfl
  rw [writes, text_eq hrun] at hkey
  exact ⟨rfl, by simpa using hkey⟩

/-- Records go on to be related where the entry of a field differs, if what is made of the field is
and what comes after it keeps that. -/
theorem leads_fillRecord_first {α : Type} {fields : List String} {field : String}
    {read read' : α → String → Path → Node → ExceptT Complaint Reads α} {rel : α → α → Prop}
    {place place' : Mark} {path path' : Path} {seen : List String} {record : α}
    {inner : Node → Node → Prop} {a b : Node × Node} {left right : List (Node × Node)}
    (hfield : field ∈ fields) (hfirst : Node.ValuesDiffer same (d.writes field) inner a b)
    (hinner : ∀ path path' node node', inner node node' → ∀ place place' within within',
      Leads d more more' rel (blame place within (read record field path node))
        (blame place' within' (read' record field path' node')))
    (hrest : ∀ next next', rel next next' →
      Leads d more' more' rel (d.fillRecord fields read place path (field :: seen) next left)
        (d'.fillRecord fields read' place' path' (field :: seen) next' right)) :
    Leads d more more' rel (d.fillRecord fields read place path seen record (a :: left))
      (d'.fillRecord fields read' place' path' seen record (b :: right)) := by
  obtain ⟨key, value⟩ := a
  obtain ⟨key', value'⟩ := b
  obtain ⟨hkey, halike, hvalue⟩ := hfirst
  rw [fillRecord, fillRecord]
  refine (leads_text_writes hmatches hroom hkey halike _ _ _).bind ?_
  rintro text _ ⟨rfl, rfl⟩
  have hknown : fields.contains (String.ofList text) = true := by simpa using hfield
  dsimp only
  rw [if_pos hknown, if_pos hknown]
  split
  · exact .throw
  · exact (hinner _ _ _ _ hvalue _ _ _ _).bind hrest

end

/-- Records whose nodes are alike do not change. -/
theorem leads_recordEntries_change {fields : List String} {inner : String → Node → Node → Prop}
    {node node' : Node} (hroom : d.jumpLimit + more ≤ d'.jumpLimit) (h : node.Alike same node')
    (name : String) (depth : Nat) (path path' : Path) :
    Leads d more more (EntriesAlike same (Change d same fields inner))
      (d.recordEntries name depth path node) (d'.recordEntries name depth path' node') := by
  refine (leads_recordEntries hmatches hroom name depth path path' h).imp ?_
  rintro r r' - ⟨n, hr⟩
  refine ⟨n, hr.imp ?_⟩
  rintro _ _ ⟨⟩
  exact .nothing

/-- Records that are read directly are the same if an entry more in one of them is unknown, or if a
field that differs is read as the same. -/
theorem leads_record {α : Type} {name : String} {fields : List String} {blank : α}
    {read read' : α → String → Path → Node → ExceptT Complaint Reads α} {depth : Nat}
    {inner : String → Node → Node → Prop} {path path' : Path} {node node' : Node}
    (hmore : more ≤ more') (hroom : d.jumpLimit + more' ≤ d'.jumpLimit)
    (hread : ∀ some, d.jumpLimit + some ≤ d'.jumpLimit → FieldAlike same d some read read')
    (hinner : ∀ record field path path' node node', inner field node node' →
      ∀ place place' within within',
        Leads d more more' Eq (blame place within (read record field path node))
          (blame place' within' (read' record field path' node')))
    (hentries : Leads d more more (EntriesAlike same (Change d same fields inner))
      (d.recordEntries name depth path node) (d'.recordEntries name depth path' node')) :
    Leads d more more' Eq (d.record name fields blank read depth path node)
      (d'.record name fields blank read' depth path' node') := by
  refine hentries.bind fun r r' hr => ?_
  obtain ⟨place, path, pairs⟩ := r
  obtain ⟨place', path', pairs'⟩ := r'
  obtain ⟨n, hr⟩ := hr
  have hroom' : d.jumpLimit + more ≤ d'.jumpLimit := by omega
  refine leads_fillRecord hmatches hroom' (hread more hroom') ?_ hr
  intro seen record left right h
  cases h with
  | nothing => exact (Leads.pure rfl).mono hmore
  | unknown hkey hname hvalue hrest =>
    rw [fillRecord_unknown hkey hname hvalue]
    exact (leads_fillRecord_alike hmatches hroom' (hread more hroom') hrest).mono hmore
  | inner hfield hfirst hrest =>
    refine leads_fillRecord_first hmatches hroom' hfield hfirst (hinner _ _) ?_
    rintro record _ rfl
    exact leads_fillRecord_alike hmatches hroom (hread more' hroom) hrest

end

/-! ### Entries as data -/

/-- Reads entries as data, whether their keys are repeated or not. -/
def readPairs (readKey read : Path → Node → Reads Untyped) (path : Path) :
    List (Node × Node) → Reads (List (Untyped × Untyped))
  | [] => return []
  | (key, value) :: rest => do
    let k ← readKey path key
    let v ← read (valuePath path key) value
    return (k, v) :: (← readPairs readKey read path rest)

theorem entries_buffer_eq (read : Path → Node → Reads Untyped) (place : Mark) (path : Path)
    (seen : List Untyped) (pairs : List (Node × Node)) :
    entries .buffer read place path seen pairs = readPairs read read path pairs := by
  induction pairs generalizing seen with
  | nil => rfl
  | cons pair rest ih =>
    rw [entries, readPairs]
    refine bind_congr fun k => bind_congr fun v => ?_
    rw [ih]

variable (d) in
/-- The name of a field as data. -/
def fieldName (path : Path) (key : Node) : Reads Untyped := do
  return .string (String.ofList (← d.text "field identifier" path key))

theorem looseEntries_eq (depth : Nat) (path : Path) (pairs : List (Node × Node)) :
    d.looseEntries depth path pairs =
      readPairs d.fieldName (d.untyped .buffer depth) path pairs := by
  induction pairs with
  | nil => rfl
  | cons pair rest ih =>
    rw [looseEntries, readPairs, fieldName, bind_assoc]
    refine bind_congr fun name => ?_
    rw [pure_bind, ih]

section

variable {readKey read readKey' read' : Path → Node → Reads Untyped} {path path' : Path}
  {n : Nat} {pairs pairs' : List (Node × Node)}
  (hkeys : ∀ some, d.jumpLimit + some ≤ d'.jumpLimit → ReadAlike same d some readKey readKey')
  (hread : ∀ some, d.jumpLimit + some ≤ d'.jumpLimit → ReadAlike same d some read read')

include hkeys hread

/-- Entries are read alike up to where they cease to be. -/
theorem leads_readPairs {rest : List (Node × Node) → List (Node × Node) → Prop}
    {rel : List (Untyped × Untyped) → List (Untyped × Untyped) → Prop}
    (hroom : d.jumpLimit + more ≤ d'.jumpLimit)
    (hrest : ∀ left right, rest left right → Leads d more more' rel
      (readPairs readKey read path left) (readPairs readKey' read' path' right))
    (h : Until (AlikeEntries same) rest n pairs pairs') :
    Leads d more more' (Until Eq rel n) (readPairs readKey read path pairs)
      (readPairs readKey' read' path' pairs') := by
  induction h with
  | now h => exact (hrest _ _ h).imp fun _ _ _ => .now
  | later hsame _ ih =>
    cases hsame with
    | mk hkey hvalue =>
      refine (hkeys _ hroom _ _ _ _ hkey).bind ?_
      rintro k _ rfl
      refine (hread _ hroom _ _ _ _ hvalue).bind ?_
      rintro v _ rfl
      exact ih.bind fun _ _ hentries => .pure (.later rfl hentries)

theorem leads_readPairs_alike (hroom : d.jumpLimit + more ≤ d'.jumpLimit)
    (h : List.Forall₂ (AlikeEntries same) pairs pairs') :
    Leads d more more Eq (readPairs readKey read path pairs)
      (readPairs readKey' read' path' pairs') := by
  refine (leads_readPairs hkeys hread hroom ?_ (.of_forall₂ h)).imp fun _ _ _ h => h.eq
  rintro _ _ ⟨⟩
  exact .pure .mk

/-- An entry more is read as an entry more. -/
theorem leads_readPairs_extra (hmore : more ≤ more') (hroom : d.jumpLimit + more' ≤ d'.jumpLimit)
    {key value : Node} {k v : Untyped} (hkey : ∀ path, readKey' path key = Pure.pure k)
    (hvalue : ∀ path, Leads d more more' (fun _ b => b = v) (Pure.pure ()) (read' path value))
    (h : Until (AlikeEntries same) (Extra (AlikeEntries same) (key, value)) n pairs pairs') :
    Leads d more more' (Until Eq (Extra Eq (k, v)) n) (readPairs readKey read path pairs)
      (readPairs readKey' read' path' pairs') := by
  refine leads_readPairs hkeys hread (by omega) ?_ h
  rintro left _ ⟨hrest⟩
  rw [readPairs.eq_2 readKey', hkey, pure_bind]
  refine (hvalue _).insert ?_
  rintro _ rfl
  rw [← bind_pure (readPairs readKey read path left)]
  refine (leads_readPairs_alike hkeys hread hroom hrest).bind ?_
  rintro entries _ rfl
  exact .pure (.mk (List.forall₂_same.mpr fun _ _ => rfl))

/-- An entry whose values differ is read as one whose data differ. -/
theorem leads_readPairs_first (hmore : more ≤ more') (hroom : d.jumpLimit + more' ≤ d'.jumpLimit)
    {keys : Node → Bool} {inner : Node → Node → Prop} {rel : Untyped → Untyped → Prop}
    {named : Untyped → Prop}
    (hnamed : ∀ path key k, keys key = true → Gives (readKey path key) k → named k)
    (hinner : ∀ path path' node node', inner node node' →
      Leads d more more' rel (read path node) (read' path' node'))
    (h : Until (AlikeEntries same)
      (First (AlikeEntries same) (Node.ValuesDiffer same keys inner)) n pairs pairs') :
    Leads d more more' (Until Eq (First Eq fun a b => named a.1 ∧ a.1 = b.1 ∧ rel a.2 b.2) n)
      (readPairs readKey read path pairs) (readPairs readKey' read' path' pairs') := by
  have hroom' : d.jumpLimit + more ≤ d'.jumpLimit := by omega
  refine leads_readPairs hkeys hread hroom' ?_ h
  rintro _ _ ⟨⟨hkey, halike, hvalue⟩, hrest⟩
  -- Whatever data were read of the key, they have the name.
  have hkeyed := (hkeys more hroom' path path' _ _ halike).imp
    fun k k' hgives hsame => And.intro (hnamed path _ k hkey hgives) hsame
  rw [readPairs, readPairs]
  refine hkeyed.bind ?_
  rintro k _ ⟨hk, rfl⟩
  refine (hinner _ _ _ _ hvalue).bind fun v v' hv => ?_
  refine (leads_readPairs_alike hkeys hread hroom hrest).bind ?_
  rintro entries _ rfl
  exact .pure (.mk ⟨hk, rfl, hv⟩ (List.forall₂_same.mpr fun _ _ => rfl))

end

/-! ### Records that become data first -/

theorem readAlike_fieldName (hmatches : Matches same d d')
    (hroom : d.jumpLimit + more ≤ d'.jumpLimit) :
    ReadAlike same d more d.fieldName d'.fieldName := by
  intro path path' node node' h
  refine (leads_text hmatches hroom h _ path path').bind ?_
  rintro text _ rfl
  exact .pure rfl

/-- A record that becomes data first is related to another where what is read of their data is. -/
theorem leads_loose_rel {α : Type} {name : String} {read read' : Untyped → Except Complaint α}
    {depth : Nat} {rest : List (Node × Node) → List (Node × Node) → Prop}
    {rel : Nat → List (Untyped × Untyped) → List (Untyped × Untyped) → Prop}
    {given : α → α → Prop} {path path' : Path} {node node' : Node}
    (hentries : Leads d more more (EntriesAlike same rest) (d.recordEntries name depth path node)
      (d'.recordEntries name depth path' node'))
    (hpairs : ∀ path path' n pairs pairs', Until (AlikeEntries same) rest n pairs pairs' →
      Leads d more more' (rel n) (readPairs d.fieldName (d.untyped .buffer (depth - 1)) path pairs)
        (readPairs d'.fieldName (d'.untyped .buffer (depth - 1)) path' pairs'))
    (hread : ∀ n data data' value, rel n data data' → read (.mapping data) = .ok value →
      ∃ value', read' (.mapping data') = .ok value' ∧ given value value') :
    Leads d more more' given (d.loose name read depth path node)
      (d'.loose name read' depth path' node') := by
  refine hentries.bind fun r r' hr => ?_
  obtain ⟨place, path, pairs⟩ := r
  obtain ⟨place', path', pairs'⟩ := r'
  obtain ⟨n, hr⟩ := hr
  dsimp only
  rw [looseEntries_eq, looseEntries_eq]
  refine (hpairs _ _ _ _ _ hr).bind fun data data' hdata => ?_
  cases hvalue : read (.mapping data) with
  | ok value =>
    obtain ⟨value', hvalue', hgiven⟩ := hread n data data' value hdata hvalue
    rw [hvalue']
    exact .pure hgiven
  | error cause => exact .throw

/-- A record that becomes data first is the same where its data have the same meaning. -/
theorem leads_loose {α : Type} {name : String} {read : Untyped → Except Complaint α} {depth : Nat}
    {rest : List (Node × Node) → List (Node × Node) → Prop}
    {rel : Nat → List (Untyped × Untyped) → List (Untyped × Untyped) → Prop} {path path' : Path}
    {node node' : Node}
    (hentries : Leads d more more (EntriesAlike same rest) (d.recordEntries name depth path node)
      (d'.recordEntries name depth path' node'))
    (hpairs : ∀ path path' n pairs pairs', Until (AlikeEntries same) rest n pairs pairs' →
      Leads d more more' (rel n) (readPairs d.fieldName (d.untyped .buffer (depth - 1)) path pairs)
        (readPairs d'.fieldName (d'.untyped .buffer (depth - 1)) path' pairs'))
    (hread : ∀ n data data', rel n data data' → read (.mapping data') = read (.mapping data)) :
    Leads d more more' Eq (d.loose name read depth path node)
      (d'.loose name read depth path' node') :=
  leads_loose_rel hentries hpairs fun n data data' value hdata hvalue =>
    ⟨value, by rw [hread n data data' hdata, hvalue], rfl⟩

theorem leads_loose_alike {α : Type} {name : String} {read : Untyped → Except Complaint α}
    {depth : Nat} {path path' : Path} {node node' : Node} (hmatches : Matches same d d')
    (hroom : d.jumpLimit + more ≤ d'.jumpLimit) (h : Node.Alike same node node') :
    Leads d more more Eq (d.loose name read depth path node)
      (d'.loose name read depth path' node') := by
  refine leads_loose (leads_recordEntries hmatches hroom name depth path path' h)
    (fun path path' n pairs pairs' h =>
      leads_readPairs (fun _ => readAlike_fieldName hmatches)
        (fun _ hroom => readAlike_untyped hmatches hroom .buffer _) hroom ?_ h)
    fun n data data' h => by rw [h.eq]
  rintro _ _ ⟨⟩
  exact .pure .mk

end

end Document

end Yaml

end CollectorTemplate
