/-
Documents that are read alike.

Nodes of two documents are alike if they have the same tags, styles and texts, wherever they stand
and however their anchors are numbered.  Alike nodes are read as the same, but for one thing: how
many aliases may be followed depends on the size of a document.  So a step of reading is followed in
another document as long as there is room for its aliases.

* `Node.Alike`, `Document.Matches` : nodes that are alike, and anchors that stand for such nodes;
* `Document.Leads` : what a step of reading one document gives, a step of reading another gives too;
* `Until` : lists that are alike up to some point, and related in another way from there on;
* `Document.readAlike_untyped` : alike nodes are read as the same data.
-/
import CollectorTemplate.Proofs.Yaml.Content

namespace CollectorTemplate

/-! ### Lists -/

section

variable {α β : Type}

/-- Lists whose first items are related by `same`, a number of them, and that are related by `rest`
from there on. -/
inductive Until (same : α → β → Prop) (rest : List α → List β → Prop) :
    Nat → List α → List β → Prop
  | now {left : List α} {right : List β} (h : rest left right) : Until same rest 0 left right
  | later {n : Nat} {a : α} {b : β} {left : List α} {right : List β} (hsame : same a b)
      (h : Until same rest n left right) : Until same rest (n + 1) (a :: left) (b :: right)

/-- Lists that are at their end. -/
inductive AtEnd : List α → List β → Prop
  | mk : AtEnd [] []

/-- Lists that differ in their first items, which are related by `inner`. -/
inductive First (same inner : α → β → Prop) : List α → List β → Prop
  | mk {a : α} {b : β} {left : List α} {right : List β} (hfirst : inner a b)
      (hrest : List.Forall₂ same left right) : First same inner (a :: left) (b :: right)

/-- Lists of which the second has an item more, in front. -/
inductive Extra (same : α → β → Prop) (extra : β) : List α → List β → Prop
  | mk {left : List α} {right : List β} (hrest : List.Forall₂ same left right) :
      Extra same extra left (extra :: right)

theorem Until.of_forall₂ {same : α → β → Prop} {left : List α} {right : List β}
    (h : List.Forall₂ same left right) : Until same AtEnd left.length left right := by
  induction h with
  | nil => exact .now .mk
  | cons hsame _ ih => exact .later hsame ih

theorem Until.length_eq {same inner : α → β → Prop} {n : Nat} {left : List α} {right : List β}
    (h : Until same (First same inner) n left right) : left.length = right.length := by
  induction h with
  | now h => cases h with | mk _ hrest => exact congrArg (· + 1) hrest.length_eq
  | later _ _ ih => exact congrArg (· + 1) ih

theorem Until.imp {same : α → β → Prop} {rest rest' : List α → List β → Prop} {n : Nat}
    {left : List α} {right : List β} (h : Until same rest n left right)
    (hrest : ∀ left right, rest left right → rest' left right) : Until same rest' n left right := by
  induction h with
  | now h => exact .now (hrest _ _ h)
  | later hsame _ ih => exact .later hsame ih

theorem Until.eq {n : Nat} {left right : List α} (h : Until Eq AtEnd n left right) :
    left = right := by
  induction h with
  | now h => cases h; rfl
  | later hsame _ ih => rw [hsame, ih]

/-! What stands in lists that are related. -/

variable {same same' inner : α → β → Prop} {left : List α} {right : List β}

theorem exists_of_forall₂ (h : List.Forall₂ same left right) {a : α} (ha : a ∈ left) :
    ∃ b, same a b := by
  induction h with
  | nil => nomatch ha
  | cons hsame _ ih =>
    rcases List.mem_cons.mp ha with rfl | ha
    · exact ⟨_, hsame⟩
    · exact ih ha

theorem Until.mem_extra {n : Nat} {extra : β} (h : Until same (Extra same' extra) n left right) :
    extra ∈ right := by
  induction h with
  | now h => cases h with | mk => exact List.mem_cons_self
  | later _ _ ih => exact List.mem_cons_of_mem _ ih

theorem Until.mem_first {n : Nat} (h : Until same (First same' inner) n left right) :
    ∃ a, ∃ b ∈ right, inner a b := by
  induction h with
  | now h => cases h with | mk hfirst => exact ⟨_, _, List.mem_cons_self, hfirst⟩
  | later _ _ ih =>
    obtain ⟨a, b, hb, hinner⟩ := ih
    exact ⟨a, b, List.mem_cons_of_mem _ hb, hinner⟩

end

namespace Yaml

/-! ### Nodes that are alike -/

mutual

/-- Nodes with the same tags, styles and texts.  Aliases are alike if `same` relates the numbers of
their anchors. -/
inductive Node.Alike (same : Nat → Nat → Prop) : Node → Node → Prop
  | scalar {place place' : Mark} {tag : Option TagText} {style : Style} {text : List Char} :
      Node.Alike same (.scalar place tag style text) (.scalar place' tag style text)
  | sequence {place place' : Mark} {tag : Option TagText} {items items' : List Node}
      (hitems : List.Forall₂ (Node.Alike same) items items') :
      Node.Alike same (.sequence place tag items) (.sequence place' tag items')
  | mapping {place place' : Mark} {tag : Option TagText} {entries entries' : List (Node × Node)}
      (hentries : List.Forall₂ (AlikeEntries same) entries entries') :
      Node.Alike same (.mapping place tag entries) (.mapping place' tag entries')
  | reference {place place' : Mark} {number number' : Nat} (hsame : same number number') :
      Node.Alike same (.reference place number) (.reference place' number')

/-- Entries with alike keys and values. -/
inductive AlikeEntries (same : Nat → Nat → Prop) : Node × Node → Node × Node → Prop
  | mk {key key' value value' : Node} (hkey : Node.Alike same key key')
      (hvalue : Node.Alike same value value') : AlikeEntries same (key, value) (key', value')

end

namespace Document

/-- The node whose anchor has a number. -/
def anchored (d : Document) (number : Nat) : Node :=
  (d.anchors.lookup number).getD (.broken (.unknownAnchor {}))

/-- Anchors that are related stand for alike nodes. -/
def Matches (same : Nat → Nat → Prop) (d d' : Document) : Prop :=
  ∀ number number', same number number' → (d.anchored number).Alike same (d'.anchored number')

/-! ### Steps of reading -/

/-- How many aliases may be followed. -/
def jumpLimit (d : Document) : Nat := d.size * 100

/-- What a step of reading `d` gives, a step of reading `d'` gives as well, up to `rel`.  At first
up to `more` aliases have been followed in `d'` that were not followed in `d`, and afterwards up to
`more'`. -/
def Leads (d : Document) {α β : Type} (more more' : Nat) (rel : α → β → Prop) (step : Reads α)
    (step' : Reads β) : Prop :=
  ∀ before a after, before ≤ d.jumpLimit → step.run before = .ok (a, after) →
    after ≤ d.jumpLimit ∧ ∀ before' ≤ before + more,
      ∃ b after', step'.run before' = .ok (b, after') ∧ rel a b ∧ after' ≤ after + more'

/-- What a step of reading gives if it is taken in some state. -/
def Gives {α : Type} (step : Reads α) (a : α) : Prop :=
  ∃ before after, step.run before = .ok (a, after)

section

variable {d d' : Document} {same : Nat → Nat → Prop} {more between more' : Nat}

namespace Leads

variable {α β γ δ : Type} {rel rel' : α → β → Prop} {next : γ → δ → Prop} {step : Reads α}
  {step' : Reads β} {f : α → Reads γ} {f' : β → Reads δ}

theorem pure {a : α} {b : β} (h : rel a b) :
    Leads d more more rel (Pure.pure a) (Pure.pure b) := by
  rintro before a after hlimit hrun
  obtain ⟨rfl, rfl⟩ := Prod.mk.inj (Except.ok.inj hrun)
  exact ⟨hlimit, fun before' hbefore => ⟨b, before', rfl, h, hbefore⟩⟩

/-- Nothing is asked of what takes the place of a failure. -/
theorem throw {e : ReadError} :
    Leads d more more' rel (MonadExcept.throw e : Reads α) step' :=
  fun _ _ _ _ hrun => nomatch hrun

theorem imp (h : Leads d more more' rel step step')
    (hrel : ∀ a b, Gives step a → rel a b → rel' a b) :
    Leads d more more' rel' step step' := by
  intro before a after hlimit hrun
  obtain ⟨hafter, hstep⟩ := h before a after hlimit hrun
  refine ⟨hafter, fun before' hbefore => ?_⟩
  obtain ⟨b, after', hrun', hab, hmore⟩ := hstep before' hbefore
  exact ⟨b, after', hrun', hrel a b ⟨_, _, hrun⟩ hab, hmore⟩

theorem mono (h : Leads d more between rel step step') (hmore : between ≤ more') :
    Leads d more more' rel step step' := by
  intro before a after hlimit hrun
  obtain ⟨hafter, hstep⟩ := h before a after hlimit hrun
  refine ⟨hafter, fun before' hbefore => ?_⟩
  obtain ⟨b, after', hrun', hab, hmore'⟩ := hstep before' hbefore
  exact ⟨b, after', hrun', hab, by omega⟩

/-- One step after another. -/
theorem bind (h : Leads d more between rel step step')
    (hf : ∀ a b, rel a b → Leads d between more' next (f a) (f' b)) :
    Leads d more more' next (step >>= f) (step' >>= f') := by
  intro before c after hlimit hrun
  obtain ⟨a, middle, hfirst, hsecond⟩ := reads_bind hrun
  obtain ⟨hmiddle, hstep⟩ := h before a middle hlimit hfirst
  have hnext {before' : Nat} (hbefore : before' ≤ before + more) :
      after ≤ d.jumpLimit ∧ ∃ e after', (step' >>= f').run before' = .ok (e, after') ∧ next c e ∧
        after' ≤ after + more' := by
    obtain ⟨b, middle', hfirst', hab, hmore⟩ := hstep before' hbefore
    obtain ⟨hafter, hthen⟩ := hf a b hab middle c after hmiddle hsecond
    obtain ⟨e, after', hsecond', hce, hmore'⟩ := hthen middle' hmore
    refine ⟨hafter, e, after', ?_, hce, hmore'⟩
    rw [StateT.run_bind, hfirst']
    exact hsecond'
  exact ⟨(hnext (Nat.zero_le _)).1, fun before' hbefore => (hnext hbefore).2⟩

/-- A step that is there in `d'` only. -/
theorem insert {good : β → Prop} {first : Reads γ}
    (h : Leads d more between (fun _ b => good b) (Pure.pure ()) step')
    (hf : ∀ b, good b → Leads d between more' next first (f' b)) :
    Leads d more more' next first (step' >>= f') := by
  have hfirst : (Pure.pure () >>= fun _ => first) = first := pure_bind _ _
  rw [← hfirst]
  exact h.bind fun _ b hb => hf b hb

end Leads

/-! ### Nodes -/

theorem follow_run (number jumps : Nat) : (d.follow number).run jumps =
    if d.jumpLimit < jumps + 1 then .error .repetitionLimit
    else .ok (d.anchored number, jumps + 1) := by
  unfold follow jumpLimit
  change ((if d.size * 100 < jumps + 1 then throw .repetitionLimit
    else Pure.pure (d.anchored number) : Reads Node)).run (jumps + 1) = _
  split
  · rfl
  · rfl

theorem leads_follow (hmatches : Matches same d d') (hroom : d.jumpLimit + more ≤ d'.jumpLimit)
    {number number' : Nat} (h : same number number') :
    Leads d more more (Node.Alike same) (d.follow number) (d'.follow number') := by
  intro before node after hlimit hrun
  rw [follow_run] at hrun
  split at hrun
  · nomatch hrun
  · obtain ⟨rfl, rfl⟩ := Prod.mk.inj (Except.ok.inj hrun)
    refine ⟨by omega, fun before' hbefore => ?_⟩
    refine ⟨d'.anchored number', before' + 1, ?_, hmatches _ _ h, by omega⟩
    rw [follow_run, if_neg (by omega)]

section

variable (hmatches : Matches same d d') (hroom : d.jumpLimit + more ≤ d'.jumpLimit)
  {node node' : Node} (h : Node.Alike same node node')

include hmatches hroom h

theorem leads_target (path path' : Path) :
    Leads d more more (fun r r' => Node.Alike same r.1 r'.1) (d.target node path)
      (d'.target node' path') := by
  cases h with
  | scalar => exact .pure .scalar
  | sequence hitems => exact .pure (.sequence hitems)
  | mapping hentries => exact .pure (.mapping hentries)
  | reference hsame =>
    exact (leads_follow hmatches hroom hsame).bind fun _ _ hnode => .pure hnode

theorem leads_text (expected : String) (path path' : Path) :
    Leads d more more Eq (d.text expected path node) (d'.text expected path' node') := by
  refine (leads_target hmatches hroom h path path').bind fun r r' hr => ?_
  obtain ⟨node, path⟩ := r
  obtain ⟨node', path'⟩ := r'
  cases hr with
  | scalar => exact .pure rfl
  | sequence | mapping | reference => exact .throw

theorem leads_string (path path' : Path) :
    Leads d more more Eq (d.string path node) (d'.string path' node') := by
  refine (leads_text hmatches hroom h _ path path').bind fun text text' htext => ?_
  rw [htext]
  exact .pure rfl

end

/-! ### Data -/

/-- Whatever alike nodes are read by two readers, the same data come of them. -/
def ReadAlike (same : Nat → Nat → Prop) (d : Document) (more : Nat)
    (read read' : Path → Node → Reads Untyped) : Prop :=
  ∀ path path' node node', Node.Alike same node node' →
    Leads d more more Eq (read path node) (read' path' node')

section

variable {read read' : Path → Node → Reads Untyped}

/-- Items are read alike up to where they cease to be, and from there on as they are read there. -/
theorem leads_items (hread : ReadAlike same d more read read')
    {rest : List Node → List Node → Prop} {rel : List Untyped → List Untyped → Prop}
    {path path' : Path} {index n : Nat} {nodes nodes' : List Node}
    (hrest : ∀ index left right, rest left right →
      Leads d more more' rel (items read path index left) (items read' path' index right))
    (h : Until (Node.Alike same) rest n nodes nodes') :
    Leads d more more' (Until Eq rel n) (items read path index nodes)
      (items read' path' index nodes') := by
  induction h generalizing index with
  | now h => exact (hrest _ _ _ h).imp fun _ _ _ => .now
  | later hsame _ ih =>
    refine (hread _ _ _ _ hsame).bind fun item item' hitem => ?_
    refine ih.bind fun items items' hitems => ?_
    exact .pure (.later hitem hitems)

theorem leads_items_alike (hread : ReadAlike same d more read read') {path path' : Path}
    {index : Nat} {nodes nodes' : List Node} (h : List.Forall₂ (Node.Alike same) nodes nodes') :
    Leads d more more Eq (items read path index nodes) (items read' path' index nodes') := by
  refine (leads_items hread ?_ (.of_forall₂ h)).imp fun _ _ _ h => h.eq
  rintro _ _ _ ⟨⟩
  exact .pure .mk

theorem leads_entries (s : Strictness) (hread : ReadAlike same d more read read')
    {place place' : Mark} {path path' : Path} {seen : List Untyped}
    {pairs pairs' : List (Node × Node)} (h : List.Forall₂ (AlikeEntries same) pairs pairs') :
    Leads d more more Eq (entries s read place path seen pairs)
      (entries s read' place' path' seen pairs') := by
  induction h generalizing seen with
  | nil => exact .pure rfl
  | @cons _ _ left right hsame _ ih =>
    cases hsame with
    | @mk key key' value value' hkey hvalue =>
      rw [entries, entries]
      refine (hread _ _ _ _ hkey).bind ?_
      rintro k _ rfl
      have hthen : Leads d more more Eq
          (do
            let v ← read (valuePath path key) value
            return (k, v) :: (← entries s read place path (seen ++ [k]) left))
          (do
            let v ← read' (valuePath path' key') value'
            return (k, v) :: (← entries s read' place' path' (seen ++ [k]) right)) := by
        refine (hread _ _ _ _ hvalue).bind ?_
        rintro v _ rfl
        refine ih.bind ?_
        rintro entries _ rfl
        exact .pure rfl
      cases s.uniqueKeys with
      | false => exact hthen
      | true =>
        cases hfound : seen.find? fun other => other.sameKey k with
        | some first => exact .throw
        | none => exact hthen

end

theorem leads_tagged (s : Strictness) {name : Option String} {place place' : Mark}
    {path path' : Path} {content content' : Reads Untyped}
    (h : Leads d more more' Eq content content') :
    Leads d more more' Eq (s.tagged name place path content)
      (s.tagged name place' path' content') := by
  unfold Strictness.tagged
  split
  · exact h
  · split
    · refine h.bind ?_
      rintro data _ rfl
      exact .pure rfl
    · exact .throw

section

variable (hmatches : Matches same d d') (hroom : d.jumpLimit + more ≤ d'.jumpLimit)

include hmatches hroom

theorem readAlike_of_inner (s : Strictness) {depth : Nat}
    (hinner : ∀ inner, depth = inner + 1 →
      ReadAlike same d more (d.untyped s inner) (d'.untyped s inner)) :
    ReadAlike same d more (d.untyped s depth) (d'.untyped s depth) := by
  intro path path' node node' h
  rw [untyped_eq, untyped_eq]
  refine (leads_target hmatches hroom h path path').bind fun r r' hr => ?_
  obtain ⟨node, path⟩ := r
  obtain ⟨node', path'⟩ := r'
  cases hr with
  | reference => exact .throw
  | @scalar _ _ tag style text =>
    refine leads_tagged s ?_
    unfold untagged Node.localName?
    dsimp only
    cases (scalarMeaning (if (tag.bind (·.localName?)).isSome then none else tag) style text).bind
        (meaningData s.expected text) with
    | ok value => exact .pure rfl
    | error cause => exact .throw
  | sequence hitems =>
    refine leads_tagged s ?_
    cases depth with
    | zero => exact .throw
    | succ depth =>
      exact (leads_items_alike (hinner depth rfl) hitems).bind fun items items' h =>
        .pure (congrArg Untyped.sequence h)
  | mapping hentries =>
    refine leads_tagged s ?_
    cases depth with
    | zero => exact .throw
    | succ depth =>
      exact (leads_entries s (hinner depth rfl) hentries).bind fun entries entries' h =>
        .pure (congrArg Untyped.mapping h)

/-- Alike nodes are read as the same data. -/
theorem readAlike_untyped (s : Strictness) (depth : Nat) :
    ReadAlike same d more (d.untyped s depth) (d'.untyped s depth) := by
  induction depth with
  | zero => exact readAlike_of_inner hmatches hroom s fun _ h => nomatch h
  | succ depth ih => exact readAlike_of_inner hmatches hroom s fun _ h => Nat.succ.inj h ▸ ih

end

end

end Document

end Yaml

end CollectorTemplate
