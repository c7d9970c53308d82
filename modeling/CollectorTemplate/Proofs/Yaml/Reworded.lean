/-
Documents that differ in one field.

Two documents are compared that are alike but for a field of a record, or for a field of that field,
and so on.  A record takes up each field once, so what is read of the two differs in that field
only, if nothing else depends on it.  Which of the documents comes first does not matter.

* `Untyped.Leads` : what a step of reading data gives, another step gives too, up to a relation;
* `Untyped.leads_record_under` : a record in data of which one field differs;
* `Document.leads_record_under` : such a record that is read directly;
* `Node.Under.symm`, `Node.UnderField.symm` : the comparison the other way round.
-/
import CollectorTemplate.Proofs.Yaml.Grown

namespace CollectorTemplate

/-! ### Records in data -/

namespace Untyped

/-- What a step of reading data gives, another step gives as well, up to `rel`. -/
def Leads {α β : Type} (rel : α → β → Prop) (step : Except Complaint α)
    (step' : Except Complaint β) : Prop :=
  ∀ a, step = .ok a → ∃ b, step' = .ok b ∧ rel a b

namespace Leads

variable {α β γ δ : Type} {rel : α → β → Prop} {next : γ → δ → Prop} {step : Except Complaint α}
  {step' : Except Complaint β}

theorem pure {a : α} {b : β} (h : rel a b) : Leads rel (Pure.pure a) (Pure.pure b) :=
  fun _ ha => ⟨b, rfl, Except.ok.inj ha ▸ h⟩

/-- Nothing is asked of what takes the place of a failure. -/
theorem throw {cause : Complaint} : Leads rel (MonadExcept.throw cause) step' := nofun

theorem refl : Leads Eq step step := fun a ha => ⟨a, ha, rfl⟩

/-- One step after another. -/
theorem bind {f : α → Except Complaint γ} {f' : β → Except Complaint δ} (h : Leads rel step step')
    (hf : ∀ a b, rel a b → Leads next (f a) (f' b)) :
    Leads next (step >>= f) (step' >>= f') := by
  intro c hc
  obtain ⟨a, ha, hc⟩ := bind_eq_ok.mp hc
  obtain ⟨b, hb, hab⟩ := h a ha
  obtain ⟨e, he, hce⟩ := hf a b hab c hc
  exact ⟨e, bind_eq_ok.mpr ⟨b, hb, he⟩, hce⟩

/-- What is read in one step can be taken up in two ways. -/
theorem taken {ι : Type} {read : Except Complaint ι} {take : ι → α} {take' : ι → β}
    (h : ∀ value, rel (take value) (take' value)) :
    Leads rel (do return take (← read)) (do return take' (← read)) := by
  refine refl.bind ?_
  rintro value _ rfl
  exact .pure (h value)

end Leads

section

variable {α : Type} {field : RecordField} {read : α → String → Untyped → Except Complaint α}
  {inner : Untyped → Untyped → Prop} {rel : α → α → Prop}
  (hother : ∀ record record' name data, name ≠ field.name → rel record record' →
    Leads rel (read record name data) (read record' name data))

include hother

/-! Once the field is taken up, what is left of the record keeps the difference. -/

theorem leads_recordEntries {seen : List String} (hseen : field.name ∈ seen) {record record' : α}
    (h : rel record record') (entries : List (Untyped × Untyped)) :
    Leads rel (recordEntries field.all read seen record entries)
      (recordEntries field.all read seen record' entries) := by
  induction entries generalizing seen record record' with
  | nil => exact .pure h
  | cons entry rest ih =>
    rw [recordEntries, recordEntries]
    refine Leads.refl.bind ?_
    rintro found _ rfl
    cases found with
    | none => exact ih hseen h
    | some name =>
      dsimp only
      split
      · exact .throw
      · rename_i hname
        -- The field would be refused if it came again.
        have hne : name ≠ field.name := by
          rintro rfl
          exact hname (by simpa using hseen)
        exact (hother _ _ _ _ hne h).bind fun _ _ h => ih (List.mem_cons_of_mem _ hseen) h

theorem leads_items {fields : List String} (hfields : field.name ∉ fields) {record record' : α}
    (h : rel record record') (items : List Untyped) :
    Leads rel ((fields.zip items).foldlM (fun record item => read record item.1 item.2) record)
      ((fields.zip items).foldlM (fun record item => read record item.1 item.2) record') := by
  induction fields generalizing items record record' with
  | nil => exact .pure h
  | cons name fields ih =>
    cases items with
    | nil => exact .pure h
    | cons item items =>
      have hne : name ≠ field.name := fun hname => hfields (hname ▸ List.mem_cons_self)
      rw [List.zip_cons_cons, List.foldlM_cons, List.foldlM_cons]
      exact (hother _ _ _ _ hne h).bind fun _ _ h =>
        ih (fun hfield => hfields (List.mem_cons_of_mem _ hfield)) h items

variable (hinner : ∀ record data data', inner data data' →
  Leads rel (read record field.name data) (read record field.name data'))

include hinner

theorem leads_entries_under {n : Nat} {entries entries' : List (Untyped × Untyped)}
    (h : Until Eq (First Eq fun a b => names field.all field.name a.1 = true ∧ a.1 = b.1 ∧
      inner a.2 b.2) n entries entries') (seen : List String) (record : α) :
    Leads rel (recordEntries field.all read seen record entries)
      (recordEntries field.all read seen record entries') := by
  induction h generalizing seen record with
  | now h =>
    obtain @⟨⟨key, value⟩, ⟨_, value'⟩, left, _, ⟨hnamed, rfl, hvalue⟩, hrest⟩ := h
    obtain rfl : left = _ := List.forall₂_eq_eq_eq ▸ hrest
    rw [recordEntries, recordEntries, fieldOf_of_names hnamed]
    dsimp only [bind, Except.bind]
    split
    · exact .throw
    · exact (hinner _ _ _ hvalue).bind fun _ _ h =>
        leads_recordEntries hother List.mem_cons_self h _
  | @later _ entry _ _ _ hsame _ ih =>
    obtain rfl := hsame
    rw [recordEntries, recordEntries]
    refine Leads.refl.bind ?_
    rintro found _ rfl
    cases found with
    | none => exact ih _ _
    | some name =>
      dsimp only
      split
      · exact .throw
      · refine Leads.refl.bind ?_
        rintro record _ rfl
        exact ih _ _

theorem leads_items_under {fields : List String} (hdistinct : fields.Nodup) {n : Nat}
    {items items' : List Untyped} (hfield : fields[n]? = some field.name)
    (h : Until Eq (First Eq inner) n items items') (record : α) :
    Leads rel ((fields.zip items).foldlM (fun record item => read record item.1 item.2) record)
      ((fields.zip items').foldlM (fun record item => read record item.1 item.2) record) := by
  induction h generalizing fields record with
  | now h =>
    cases h with
    | mk hfirst hrest =>
      obtain rfl := List.forall₂_eq_eq_eq ▸ hrest
      cases fields with
      | nil => nomatch hfield
      | cons name fields =>
        obtain rfl : name = field.name := Option.some.inj hfield
        rw [List.zip_cons_cons, List.zip_cons_cons, List.foldlM_cons, List.foldlM_cons]
        exact (hinner _ _ _ hfirst).bind fun _ _ h =>
          leads_items hother (List.nodup_cons.mp hdistinct).1 h _
  | later hsame _ ih =>
    obtain rfl := hsame
    cases fields with
    | nil => nomatch hfield
    | cons name fields =>
      rw [List.zip_cons_cons, List.zip_cons_cons, List.foldlM_cons, List.foldlM_cons]
      refine Leads.refl.bind ?_
      rintro record _ rfl
      exact ih (List.nodup_cons.mp hdistinct).2 hfield record

/-- Records are related of which one field differs, if what is made of the field is and nothing else
depends on it. -/
theorem leads_record_under (hdistinct : field.all.Nodup) {name : String} {blank : α}
    {data data' : Untyped} (h : Under field inner data data') :
    Leads rel (Untyped.record name field.all blank read data)
      (Untyped.record name field.all blank read data') := by
  cases h with
  | mapping h => exact leads_entries_under hother hinner h [] blank
  | sequence h hfield =>
    have hitems := leads_items_under hother hinner hdistinct hfield h blank
    refine hitems.bind fun record record' hrecord => ?_
    dsimp only
    rw [h.length_eq]
    split
    · exact .throw
    · exact .pure hrecord

end

theorem Under.not_null {field : RecordField} {inner : Untyped → Untyped → Prop}
    {data data' : Untyped} (h : Under field inner data data') : data ≠ .null ∧ data' ≠ .null := by
  cases h <;> exact ⟨nofun, nofun⟩

end Untyped

namespace Yaml

/-! ### Records in a document -/

namespace Document

section

variable {d d' : Document} {same : Nat → Nat → Prop} {more : Nat} (hmatches : Matches same d d')
  (hroom : d.jumpLimit + more ≤ d'.jumpLimit) {α : Type} {fields : List String} {field : String}
  {read read' : α → String → Path → Node → ExceptT Complaint Reads α} {rel : α → α → Prop}
  (hother : ∀ record record' name path path' node node', name ≠ field → rel record record' →
    Node.Alike same node node' → ∀ place place' within within',
      Leads d more more rel (blame place within (read record name path node))
        (blame place' within' (read' record' name path' node')))

include hmatches hroom hother

/-- Once the field is taken up, the entries that are left keep the difference. -/
theorem leads_fillRecord_rel {place place' : Mark} {path path' : Path} {seen : List String}
    (hseen : field ∈ seen) {record record' : α} (hrecord : rel record record')
    {pairs pairs' : List (Node × Node)} (h : List.Forall₂ (AlikeEntries same) pairs pairs') :
    Leads d more more rel (d.fillRecord fields read place path seen record pairs)
      (d'.fillRecord fields read' place' path' seen record' pairs') := by
  induction h generalizing seen record record' with
  | nil => exact .pure hrecord
  | cons hsame _ ih =>
    cases hsame with
    | mk hkey hvalue =>
      rw [fillRecord, fillRecord]
      refine (leads_text hmatches hroom hkey _ _ _).bind ?_
      rintro text _ rfl
      dsimp only
      split
      · split
        · exact .throw
        · rename_i hname
          have hne : String.ofList text ≠ field := by
            rintro rfl
            exact hname (by simpa using hseen)
          exact (hother _ _ _ _ _ _ _ hne hrecord hvalue _ _ _ _).bind fun _ _ hrecord =>
            ih (List.mem_cons_of_mem _ hseen) hrecord
      · rw [breakage?_of_alike _ hvalue]
        split
        · exact .throw
        · exact ih hseen hrecord

/-- Records that are read directly are related of which one field differs, if what is made of the
field is and nothing else depends on it. -/
theorem leads_record_under {name : String} {blank : α} {depth : Nat} {path path' : Path}
    {node node' : Node} {inner : Node → Node → Prop} (hfield : field ∈ fields)
    (hread : FieldAlike same d more read read')
    (hinner : ∀ record path path' node node', inner node node' → ∀ place place' within within',
      Leads d more more rel (blame place within (read record field path node))
        (blame place' within' (read' record field path' node')))
    (h : node.Under same (d.writes field) inner node') :
    Leads d more more rel (d.record name fields blank read depth path node)
      (d'.record name fields blank read' depth path' node') := by
  cases h with
  | mapping h =>
    refine (leads_recordEntries_mapping h name depth path path' _ _ _).bind fun r r' hr => ?_
    obtain ⟨place, path, pairs⟩ := r
    obtain ⟨place', path', pairs'⟩ := r'
    obtain ⟨n, hr⟩ := hr
    refine leads_fillRecord hmatches hroom hread ?_ hr
    rintro seen record _ _ ⟨hfirst, hrest⟩
    -- Up to here the records are the same, and from here on they are related.
    exact leads_fillRecord_first hmatches hroom hfield hfirst (hinner record) fun _ _ hrecord =>
      leads_fillRecord_rel hmatches hroom hother List.mem_cons_self hrecord hrest

end

end Document

end Yaml

/-! ### The other way round -/

section

variable {α β : Type} {same inner : α → β → Prop} {same' inner' : β → α → Prop} {left : List α}
  {right : List β}

theorem forall₂_symm (h : List.Forall₂ same left right) (hsame : ∀ a b, same a b → same' b a) :
    List.Forall₂ same' right left :=
  List.Forall₂.flip (h.imp hsame)

theorem Until.symm {rest : List α → List β → Prop} {rest' : List β → List α → Prop} {n : Nat}
    (h : Until same rest n left right) (hsame : ∀ a b, same a b → same' b a)
    (hrest : ∀ left right, rest left right → rest' right left) :
    Until same' rest' n right left := by
  induction h with
  | now h => exact .now (hrest _ _ h)
  | later h _ ih => exact .later (hsame _ _ h) ih

theorem First.symm (h : First same inner left right) (hsame : ∀ a b, same a b → same' b a)
    (hinner : ∀ a b, inner a b → inner' b a) : First same' inner' right left := by
  obtain ⟨hfirst, hrest⟩ := h
  exact .mk (hinner _ _ hfirst) (forall₂_symm hrest hsame)

end

namespace Yaml

variable {same : Nat → Nat → Prop}

namespace Node

mutual

theorem alike_symm {node : Node} :
    (node' : Node) → Alike same node node' → Alike (flip same) node' node
  | .scalar .., h => by cases h; exact .scalar
  | .reference .., h => by
    cases h with
    | reference hsame => exact .reference hsame
  | .sequence _ _ items, h => by
    cases h with
    | sequence hitems => exact .sequence (itemsAlike_symm items hitems)
  | .mapping _ _ entries, h => by
    cases h with
    | mapping hentries => exact .mapping (entriesAlike_symm entries hentries)
  | .broken _, h => nomatch h

theorem itemsAlike_symm {items : List Node} :
    (items' : List Node) → List.Forall₂ (Alike same) items items' →
      List.Forall₂ (Alike (flip same)) items' items
  | [], .nil => .nil
  | item :: items', .cons hitem hitems =>
    .cons (alike_symm item hitem) (itemsAlike_symm items' hitems)

theorem entriesAlike_symm {entries : List (Node × Node)} :
    (entries' : List (Node × Node)) → List.Forall₂ (AlikeEntries same) entries entries' →
      List.Forall₂ (AlikeEntries (flip same)) entries' entries
  | [], .nil => .nil
  | (key, value) :: entries', .cons (.mk hkey hvalue) hentries =>
    .cons (.mk (alike_symm key hkey) (alike_symm value hvalue))
      (entriesAlike_symm entries' hentries)

end

theorem Alike.symm {node node' : Node} (h : Alike same node node') :
    Alike (flip same) node' node :=
  alike_symm node' h

end Node

theorem AlikeEntries.symm {a b : Node × Node} (h : AlikeEntries same a b) :
    AlikeEntries (flip same) b a := by
  obtain ⟨hkey, hvalue⟩ := h
  exact .mk hkey.symm hvalue.symm

variable {d d' : Document} {inner inner' : Node → Node → Prop} {node node' : Node}

theorem Document.Matches.symm (h : Matches same d d') : Matches (flip same) d' d :=
  fun number number' hsame => (h number' number hsame).symm

namespace Node

theorem Under.symm {keys keys' : Node → Bool} (h : Under same keys inner node node')
    (hkeys : ∀ key key', Alike same key key' → keys' key' = keys key)
    (hinner : ∀ node node', inner node node' → inner' node' node) :
    Under (flip same) keys' inner' node' node := by
  cases h with
  | mapping h =>
    refine .mapping (h.symm (fun _ _ => .symm) fun left right h => ?_)
    refine h.symm (fun _ _ => .symm) fun a b hab => ?_
    obtain ⟨hkey, halike, hvalue⟩ := hab
    exact ⟨(hkeys _ _ halike).trans hkey, halike.symm, hinner _ _ hvalue⟩

theorem UnderField.symm {field : RecordField} (hmatches : Document.Matches same d d')
    (h : UnderField d same field inner node node')
    (hinner : ∀ node node', inner node node' → inner' node' node) :
    UnderField d' (flip same) field inner' node' node := by
  cases h with
  | mapping h =>
    exact .mapping (h.symm (fun _ _ h => Document.names_of_alike hmatches h _ _) hinner)
  | sequence h hfield =>
    exact .sequence (h.symm (fun _ _ => .symm) fun _ _ h => h.symm (fun _ _ => .symm) hinner) hfield

end Node

end Yaml

end CollectorTemplate
