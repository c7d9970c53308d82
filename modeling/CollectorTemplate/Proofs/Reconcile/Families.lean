/-
Contexts that are cancelled together.

Contexts that were cloned from one another are a family, and cancelling one of them cancels all.  A
session keeps one number for each family.  Here families are told from what happened alone: each
context goes by the number of the step that made it, and clones link contexts in both directions.

* `Session.made?`, `Session.clones`, `Session.cancels` : what steps made, cloned and cancelled;
* `Session.SameFamily` : contexts that are linked by clones, however long the chain;
* `Session.Follows` : a session knows as many families as there are, and which are cancelled;
* `build_cancelled_iff` : a build that is cancelled, and no other, fails for that reason;
* `Session.isCancelled_iff_family` : what is cancelled, and what a build makes of it.

Steps stand latest first throughout, so that a step's number is the length of what is behind it.
-/
import CollectorTemplate.Proofs.Build
import CollectorTemplate.Proofs.Entries
import CollectorTemplate.Proofs.Reconcile.Guards
import CollectorTemplate.Proofs.Wording
import Mathlib.Data.List.Basic
import Mathlib.Logic.Relation

namespace CollectorTemplate

/-! ### Builds of cancelled contexts -/

section

variable (b : Builder) (context : ReconcileContext) (resource : Monitoring) (ambient : Ambient)

/-- A build fails because it is cancelled just if the context was cancelled. -/
theorem build_cancelled_iff (cancelled : Bool) (id : String) :
    ((build b context cancelled resource).run ambient).value.1 = .error (.cancelled id) ↔
      cancelled = true ∧ id = context.id := by
  cases cancelled with
  | true =>
    rw [build_of_cancelled]
    constructor
    · intro h
      exact ⟨rfl, (Error.cancelled.inj (Except.error.inj h)).symm⟩
    · rintro ⟨-, rfl⟩
      rfl
  | false =>
    refine iff_of_false (fun h => ?_) fun h => nomatch h.1
    rw [build_value] at h
    -- Assembly fails for other reasons only.
    cases hvalue : (assemble b.reserved (ambient.enter context).2.current?
        (resource.exporters?.getD [])).value with
    | ok assembly =>
      rw [hvalue] at h
      nomatch h
    | error e =>
      rw [hvalue] at h
      obtain rfl := Except.error.inj h
      rcases assemble_error_cases _ _ hvalue with ⟨name, -, h⟩ | ⟨name, raw, cause, -, -, h⟩
      · nomatch h
      · nomatch h

end

/-- Whether a step makes and cancels no context. -/
def Step.keepsFamilies : Step → Bool
  | .isCancelled _ | .enter .. | .exit _ | .current | .build .. => true
  | _ => false

namespace Session

open Relation

/-! ### What happened -/

/-- The number of the step that made the context of a label, none if there is no such context. -/
def made? (label : String) : List Step → Option Nat
  | [] => none
  | .create l _ :: earlier => if label = l then some earlier.length else made? label earlier
  | .clone _ l :: earlier => if label = l then some earlier.length else made? label earlier
  | _ :: earlier => made? label earlier

/-- The contexts that were created. -/
def creations : List Step → List Nat
  | [] => []
  | .create .. :: earlier => earlier.length :: creations earlier
  | _ :: earlier => creations earlier

/-- The contexts that were cloned, each with its clone. -/
def clones : List Step → List (Nat × Nat)
  | [] => []
  | .clone source _ :: earlier =>
    ((made? source earlier).map fun i => (i, earlier.length)).toList ++ clones earlier
  | _ :: earlier => clones earlier

/-- The contexts that were cancelled themselves. -/
def cancels : List Step → List Nat
  | [] => []
  | .cancel label :: earlier => (made? label earlier).toList ++ cancels earlier
  | _ :: earlier => cancels earlier

/-- Contexts that are linked by clones. -/
def SameFamily (history : List Step) : Nat → Nat → Prop :=
  EqvGen fun i j => (i, j) ∈ clones history

/-- Steps that create contexts, and clone and cancel contexts that there are. -/
inductive Handles : List Step → Prop
  | nil : Handles []
  | create {earlier : List Step} (label : String) (id : Option String) (h : Handles earlier) :
      Handles (.create label id :: earlier)
  | clone {earlier : List Step} {source : String} (label : String)
      (hsource : (made? source earlier).isSome) (h : Handles earlier) :
      Handles (.clone source label :: earlier)
  | cancel {earlier : List Step} {label : String} (hlabel : (made? label earlier).isSome)
      (h : Handles earlier) : Handles (.cancel label :: earlier)
  | other {earlier : List Step} {step : Step} (hstep : step.keepsFamilies = true)
      (h : Handles earlier) : Handles (step :: earlier)

/-- The creation that a context goes back to, over the contexts it was cloned from. -/
def root : Nat → List Step → Nat
  | k, [] => k
  | k, .clone source _ :: earlier =>
    if k = earlier.length then ((made? source earlier).map (root · earlier)).getD k
    else root k earlier
  | k, _ :: earlier => root k earlier

variable {history earlier : List Step} {label : String} {i j k : Nat}

theorem made?_lt (h : made? label history = some k) : k < history.length := by
  fun_induction made? label history with
  | case1 => nomatch h
  | case2 | case4 =>
    obtain rfl := Option.some.inj h
    exact Nat.lt_succ_self _
  | case3 l id earlier hl ih => exact Nat.lt_succ_of_lt (ih h)
  | case5 source l earlier hl ih => exact Nat.lt_succ_of_lt (ih h)
  | case6 step earlier _ _ ih => exact Nat.lt_succ_of_lt (ih h)

theorem lt_of_mem_cancels (h : i ∈ cancels history) : i < history.length := by
  fun_induction cancels history with
  | case1 => nomatch h
  | case2 label earlier ih =>
    rcases List.mem_append.mp h with h | h
    · exact Nat.lt_succ_of_lt (made?_lt (Option.mem_toList.mp h))
    · exact Nat.lt_succ_of_lt (ih h)
  | case3 step earlier _ ih => exact Nat.lt_succ_of_lt (ih h)

/-! ### Families by their roots -/

theorem root_cons (step : Step) (h : k ≠ earlier.length) :
    root k (step :: earlier) = root k earlier := by
  cases step with
  | clone source label => exact if_neg h
  | _ => rfl

/-- Later steps do not change where a context goes back to. -/
theorem root_of_lt (step : Step) (h : k < earlier.length) :
    root k (step :: earlier) = root k earlier := root_cons step (Nat.ne_of_lt h)

theorem root_clone {source : String} (h : made? source earlier = some i) (label : String) :
    root earlier.length (.clone source label :: earlier) = root i earlier := by
  rw [root, if_pos rfl, h]
  rfl

theorem root_of_le (h : history.length ≤ k) : root k history = k := by
  induction history with
  | nil => rfl
  | cons step earlier ih =>
    rw [List.length_cons] at h
    rw [root_cons step (by omega)]
    exact ih (by omega)

theorem root_le (k : Nat) (history : List Step) : root k history ≤ k := by
  induction history generalizing k with
  | nil => exact Nat.le_refl k
  | cons step earlier ih =>
    by_cases hk : k = earlier.length
    · cases step with
      | clone source label =>
        rw [root, if_pos hk]
        cases hmade : made? source earlier with
        | none => exact Nat.le_refl k
        | some i =>
          have hi : i < k := hk ▸ made?_lt hmade
          exact Nat.le_trans (ih i) (Nat.le_of_lt hi)
      | _ => exact ih k
    · rw [root_cons step hk]
      exact ih k

theorem root_of_clone (h : (i, j) ∈ clones history) :
    i < history.length ∧ j < history.length ∧ root i history = root j history := by
  induction history with
  | nil => nomatch h
  | cons step earlier ih =>
    have hold : (i, j) ∈ clones earlier → i < (step :: earlier).length ∧
        j < (step :: earlier).length ∧ root i (step :: earlier) = root j (step :: earlier) := by
      intro h
      obtain ⟨hi, hj, hroot⟩ := ih h
      rw [root_of_lt step hi, root_of_lt step hj]
      exact ⟨Nat.lt_succ_of_lt hi, Nat.lt_succ_of_lt hj, hroot⟩
    cases step with
    | clone source label =>
      rcases List.mem_append.mp h with h | h
      · obtain ⟨m, hmade, hpair⟩ := Option.map_eq_some_iff.mp (Option.mem_toList.mp h)
        obtain ⟨rfl, rfl⟩ := Prod.mk.inj hpair
        have hm := made?_lt hmade
        rw [root_clone hmade, root_of_lt _ hm]
        exact ⟨Nat.lt_succ_of_lt hm, Nat.lt_succ_self _, rfl⟩
      · exact hold h
    | _ => exact hold h

theorem mem_clones_cons (step : Step) (h : (i, j) ∈ clones earlier) :
    (i, j) ∈ clones (step :: earlier) := by
  cases step with
  | clone source label => exact List.mem_append_right _ h
  | _ => exact h

theorem SameFamily.cons (step : Step) (h : SameFamily earlier i j) :
    SameFamily (step :: earlier) i j :=
  EqvGen.mono (fun _ _ => mem_clones_cons step) _ _ h

/-- A context is linked to the creation it goes back to. -/
theorem sameFamily_root (k : Nat) (history : List Step) :
    SameFamily history (root k history) k := by
  induction history generalizing k with
  | nil => exact .refl k
  | cons step earlier ih =>
    by_cases hk : k = earlier.length
    · cases step with
      | clone source label =>
        cases hmade : made? source earlier with
        | none =>
          rw [root, if_pos hk, hmade]
          exact .refl k
        | some i =>
          subst hk
          rw [root_clone hmade]
          refine ((ih i).cons _).trans _ _ _ (.rel _ _ (List.mem_append_left _ ?_))
          rw [hmade]
          exact List.mem_singleton_self _
      | _ => exact (ih k).cons _
    · rw [root_cons step hk]
      exact (ih k).cons step

/-- Contexts are linked by clones just if they go back to one creation. -/
theorem sameFamily_iff : SameFamily history i j ↔ root i history = root j history := by
  constructor
  · intro h
    induction h with
    | rel i j h => exact (root_of_clone h).2.2
    | refl i => rfl
    | symm i j _ ih => exact ih.symm
    | trans i j k _ _ ih ih' => exact ih.trans ih'
  · intro h
    have hi : SameFamily history i (root i history) := (sameFamily_root i history).symm
    rw [h] at hi
    exact hi.trans _ _ _ (sameFamily_root j history)

theorem root_of_creation (h : i ∈ creations history) :
    i < history.length ∧ root i history = i := by
  induction history with
  | nil => nomatch h
  | cons step earlier ih =>
    have hold : i ∈ creations earlier →
        i < (step :: earlier).length ∧ root i (step :: earlier) = i := by
      intro h
      obtain ⟨hi, hroot⟩ := ih h
      exact ⟨Nat.lt_succ_of_lt hi, (root_of_lt step hi).trans hroot⟩
    cases step with
    | create label id =>
      rcases List.mem_cons.mp h with rfl | h
      · have hself : root earlier.length earlier = earlier.length := root_of_le (Nat.le_refl _)
        exact ⟨Nat.lt_succ_self _, hself⟩
      · exact hold h
    | _ => exact hold h

/-! ### What a session knows -/

/-- A session after steps: it has as many families as there are creations that contexts go back to,
and of a family with a cancelled member it knows that. -/
structure Follows (history : List Step) (s : Session) : Prop where
  known : ∀ {label : String} {k : Nat}, made? label history = some k →
    (s.context label).family < s.families
  family : ∀ {label other : String} {i j : Nat}, made? label history = some i →
    made? other history = some j →
    ((s.context label).family = (s.context other).family ↔ root i history = root j history)
  past : ∀ family ∈ s.cancelled, family < s.families
  cancelled : ∀ {label : String} {k : Nat}, made? label history = some k →
    ((s.context label).family ∈ s.cancelled ↔
      ∃ i ∈ cancels history, root i history = root k history)

namespace Follows

variable {s t : Session}

theorem start : Follows [] {} where
  known h := nomatch h
  family h := nomatch h
  past _ h := nomatch h
  cancelled h := nomatch h

theorem cancels_root (step : Step) : (∃ i ∈ cancels earlier, root i (step :: earlier) = j) ↔
    ∃ i ∈ cancels earlier, root i earlier = j := by
  refine exists_congr fun i => and_congr_right fun hi => ?_
  rw [root_of_lt step (lt_of_mem_cancels hi)]

/-- A step after which each label stands for a context that was there before. -/
theorem inherit {step : Step} (h : Follows earlier s) (hfamilies : t.families = s.families)
    (hcancelled : t.cancelled = s.cancelled)
    (hcancels : cancels (step :: earlier) = cancels earlier)
    (hold : ∀ {label : String} {k : Nat}, made? label (step :: earlier) = some k →
      ∃ other i, made? other earlier = some i ∧ t.context label = s.context other ∧
        root k (step :: earlier) = root i earlier) : Follows (step :: earlier) t := by
  constructor
  · intro label k hmade
    obtain ⟨other, i, hother, hcontext, -⟩ := hold hmade
    rw [hcontext, hfamilies]
    exact h.known hother
  · intro label label' k k' hmade hmade'
    obtain ⟨other, i, hother, hcontext, hroot⟩ := hold hmade
    obtain ⟨other', i', hother', hcontext', hroot'⟩ := hold hmade'
    rw [hcontext, hcontext', hroot, hroot']
    exact h.family hother hother'
  · intro family hfamily
    rw [hfamilies]
    exact h.past family (hcancelled ▸ hfamily)
  · intro label k hmade
    obtain ⟨other, i, hother, hcontext, hroot⟩ := hold hmade
    rw [hcontext, hcancelled, hcancels, hroot, cancels_root]
    exact h.cancelled hother

theorem context_insert (s : Session) (label : String) (context : ReconcileContext)
    (families : Nat) (other : String) :
    ({ s with contexts := Entries.insert label context s.contexts, families } : Session).context
      other = if other = label then context else s.context other := by
  show (Entries.find? other (Entries.insert label context s.contexts)).getD default = _
  rw [Entries.find?_insert]
  split
  · rfl
  · rfl

/-- A new context is the first of its family. -/
theorem create (h : Follows earlier s) (label name : String) (id : Option String) :
    Follows (.create label id :: earlier) (s.create label name) := by
  -- Each label stands for the new context, or for the one that it stood for before.
  have hcases : ∀ {other : String} {k : Nat}, made? other (.create label id :: earlier) = some k →
      (k = earlier.length ∧ ((s.create label name).context other).family = s.families) ∨
        (made? other earlier = some k ∧ (s.create label name).context other = s.context other) := by
    intro other k hmade
    have hcontext : (s.create label name).context other =
        if other = label then ⟨name, s.families⟩ else s.context other :=
      context_insert s label ⟨name, s.families⟩ (s.families + 1) other
    rw [made?] at hmade
    by_cases hlabel : other = label
    · rw [if_pos hlabel] at hmade hcontext
      exact .inl ⟨(Option.some.inj hmade).symm, by rw [hcontext]⟩
    · rw [if_neg hlabel] at hmade hcontext
      exact .inr ⟨hmade, hcontext⟩
  -- All others go back to steps before this one.
  have hless {other : String} {k : Nat} (hmade : made? other earlier = some k) :
      root k earlier < earlier.length := Nat.lt_of_le_of_lt (root_le k earlier) (made?_lt hmade)
  have hself : root earlier.length earlier = earlier.length := root_of_le (Nat.le_refl _)
  constructor
  · intro other k hmade
    rcases hcases hmade with ⟨-, hfamily⟩ | ⟨hold, hcontext⟩
    · rw [hfamily]
      exact Nat.lt_succ_self _
    · rw [hcontext]
      exact Nat.lt_succ_of_lt (h.known hold)
  · intro other other' k k' hmade hmade'
    show _ ↔ root k earlier = root k' earlier
    rcases hcases hmade with ⟨rfl, hfamily⟩ | ⟨hold, hcontext⟩
    · rcases hcases hmade' with ⟨rfl, hfamily'⟩ | ⟨hold', hcontext'⟩
      · exact iff_of_true (hfamily.trans hfamily'.symm) rfl
      · rw [hfamily, hcontext', hself]
        exact iff_of_false (Nat.ne_of_gt (h.known hold')) (Nat.ne_of_gt (hless hold'))
    · rcases hcases hmade' with ⟨rfl, hfamily'⟩ | ⟨hold', hcontext'⟩
      · rw [hfamily', hcontext, hself]
        exact iff_of_false (Nat.ne_of_lt (h.known hold)) (Nat.ne_of_lt (hless hold))
      · rw [hcontext, hcontext']
        exact h.family hold hold'
  · intro family hfamily
    exact Nat.lt_succ_of_lt (h.past family hfamily)
  · intro other k hmade
    show _ ∈ s.cancelled ↔ ∃ i ∈ cancels earlier, root i earlier = root k earlier
    rcases hcases hmade with ⟨rfl, hfamily⟩ | ⟨hold, hcontext⟩
    · rw [hfamily, hself]
      refine iff_of_false (fun hmem => Nat.lt_irrefl _ (h.past _ hmem)) ?_
      rintro ⟨i, hi, hroot⟩
      exact Nat.ne_of_lt (Nat.lt_of_le_of_lt (root_le i earlier) (lt_of_mem_cancels hi)) hroot
    · rw [hcontext]
      exact h.cancelled hold

/-- A clone belongs to the family of its source. -/
theorem clone {source : String} (h : Follows earlier s) (hsource : (made? source earlier).isSome)
    (label : String) : Follows (.clone source label :: earlier) (s.clone source label) := by
  obtain ⟨m, hm⟩ := Option.isSome_iff_exists.mp hsource
  refine h.inherit rfl rfl rfl fun {other k} hother => ?_
  have hcontext : (s.clone source label).context other =
      if other = label then s.context source else s.context other :=
    context_insert s label (s.context source) s.families other
  rw [show made? other (.clone source label :: earlier) =
    if other = label then some earlier.length else made? other earlier from rfl] at hother
  rw [hcontext]
  by_cases hlabel : other = label
  · rw [if_pos hlabel] at hother ⊢
    obtain rfl := Option.some.inj hother
    exact ⟨source, m, hm, rfl, root_clone hm label⟩
  · rw [if_neg hlabel] at hother ⊢
    exact ⟨other, k, hother, rfl, root_of_lt _ (made?_lt hother)⟩

/-- A cancelled context cancels its family, and no other. -/
theorem cancel (h : Follows earlier s) (hlabel : (made? label earlier).isSome) :
    Follows (.cancel label :: earlier) (s.cancel label) := by
  obtain ⟨m, hm⟩ := Option.isSome_iff_exists.mp hlabel
  constructor
  · exact h.known
  · exact h.family
  · intro family hfamily
    rcases List.mem_cons.mp hfamily with rfl | hfamily
    · exact h.known hm
    · exact h.past family hfamily
  · intro other k hother
    have hcancels : cancels (.cancel label :: earlier) = m :: cancels earlier := by
      rw [cancels, hm]
      rfl
    rw [hcancels, List.exists_mem_cons_iff]
    show (s.context other).family ∈ (s.context label).family :: s.cancelled ↔
      root m earlier = root k earlier ∨ ∃ i ∈ cancels earlier, root i earlier = root k earlier
    rw [List.mem_cons, h.family hother hm, h.cancelled hother]
    exact or_congr_left eq_comm

/-- Steps of other kinds leave the contexts and their families alone. -/
theorem other {step : Step} (h : Follows earlier s) (hstep : step.keepsFamilies = true) :
    Follows (step :: earlier) (s.step step).2 := by
  have hkept : (s.step step).2.families = s.families ∧ (s.step step).2.cancelled = s.cancelled ∧
      (s.step step).2.contexts = s.contexts := by
    cases step with
    | create | clone | cancel | scope => nomatch hstep
    | exit guard =>
      rw [Session.step, Session.exit]
      cases Entries.find? guard s.guards with
      | none => exact ⟨rfl, rfl, rfl⟩
      | some old => exact ⟨rfl, rfl, rfl⟩
    | _ => exact ⟨rfl, rfl, rfl⟩
  have hmade : cancels (step :: earlier) = cancels earlier ∧
      ∀ label, made? label (step :: earlier) = made? label earlier := by
    cases step with
    | create | clone | cancel | scope => nomatch hstep
    | _ => exact ⟨rfl, fun _ => rfl⟩
  obtain ⟨hfamilies, hcancelled, hcontexts⟩ := hkept
  refine h.inherit hfamilies hcancelled hmade.1 fun {label k} hlabel => ?_
  rw [hmade.2] at hlabel
  refine ⟨label, k, hlabel, ?_, root_of_lt step (made?_lt hlabel)⟩
  rw [context, hcontexts, context]

end Follows

/-- What a thread knows after steps. -/
def after (history : List Step) : Session := (({} : Session).run history.reverse).2

theorem after_cons (step : Step) (earlier : List Step) :
    after (step :: earlier) = ((after earlier).step step).2 := by
  rw [after, List.reverse_cons, run_append, run_cons, run, after]

theorem Handles.follows (h : Handles history) : Follows history (after history) := by
  induction h with
  | nil => exact .start
  | create label id _ ih =>
    rw [after_cons]
    exact ih.create label _ id
  | clone label hsource _ ih =>
    rw [after_cons]
    exact ih.clone hsource label
  | cancel hlabel _ ih =>
    rw [after_cons]
    exact ih.cancel hlabel
  | other hstep _ ih =>
    rw [after_cons]
    exact ih.other hstep

/-! ### Cancelled for good -/

mutual

theorem cancelled_subset_step (s : Session) (step : Step) :
    s.cancelled ⊆ (s.step step).2.cancelled := by
  match step with
  | .cancel label => exact List.subset_cons_self _ _
  | .exit guard =>
    rw [Session.step, Session.exit]
    cases Entries.find? guard s.guards with
    | none => exact List.Subset.refl _
    | some old => exact List.Subset.refl _
  | .scope label steps =>
    rw [Session.step]
    exact cancelled_subset_run { s with ambient := (s.ambient.begin (s.context label)).2 } steps
  | .create .. | .clone .. | .isCancelled _ | .enter .. | .current | .build .. =>
    exact List.Subset.refl _

theorem cancelled_subset_run (s : Session) (steps : List Step) :
    s.cancelled ⊆ (s.run steps).2.cancelled := by
  match steps with
  | [] =>
    rw [run]
    exact List.Subset.refl _
  | first :: rest =>
    rw [run_cons]
    exact List.Subset.trans (cancelled_subset_step s first) (cancelled_subset_run _ rest)

end

theorem isCancelled_iff (s : Session) (context : ReconcileContext) :
    s.isCancelled context = true ↔ context.family ∈ s.cancelled := List.contains_iff_mem

/-! ### What is cancelled -/

/-- A context is cancelled just if it or a context of its family was, and stays so whatever happens
later; contexts that were created are of different families, whatever they are called.  A build for
a context fails because it is cancelled just if the context is cancelled then, under the name of the
context, and has assembled nothing. -/
theorem isCancelled_iff_family (h : Handles history) :
    (∀ label k, made? label history = some k →
      ((after history).isCancelled ((after history).context label) = true ↔
        ∃ i ∈ cancels history, SameFamily history i k)) ∧
    (∀ context later, (after history).isCancelled context = true →
      ((after history).run later).2.isCancelled context = true) ∧
    (∀ i ∈ creations history, ∀ j ∈ creations history, SameFamily history i j → i = j) ∧
    ∀ label b resource ambient id,
      let context := (after history).context label
      let built := (build b context ((after history).isCancelled context) resource).run ambient
      (built.value.1 = .error (.cancelled id) ↔
        (after history).isCancelled context = true ∧ id = context.id) ∧
      ((after history).isCancelled context = true → built.trace =
        [.opened (.build context.id resource.metadata.name), .event .skippedCancelled]) := by
  refine ⟨fun label k hmade => ?_, fun context later hcancelled => ?_, fun i hi j hj hsame => ?_,
    fun label b resource ambient id => ⟨build_cancelled_iff b _ resource ambient _ id, ?_⟩⟩
  · -- A session tells families by numbers, which go with the roots of the contexts.
    rw [isCancelled_iff, h.follows.cancelled hmade]
    exact exists_congr fun i => and_congr_right fun _ => sameFamily_iff.symm
  · rw [isCancelled_iff] at hcancelled ⊢
    exact cancelled_subset_run _ later hcancelled
  · -- What was created goes back to nothing else.
    rw [← (root_of_creation hi).2, ← (root_of_creation hj).2]
    exact sameFamily_iff.mp hsame
  · intro hcancelled
    rw [hcancelled, build_of_cancelled]

/-- Two contexts of one name, of which the first is cloned twice in a row: the last clone is
cancelled, and with it the first context, but not the second. -/
theorem isCancelled_iff_family_of_namesakes :
    let history : List Step := [.cancel "c", .create "d" (some "same"), .clone "b" "c",
      .clone "a" "b", .create "a" (some "same")]
    Handles history ∧
      (after history).isCancelled ((after history).context "a") = true ∧
      (after history).isCancelled ((after history).context "d") = false := by
  intro history
  have hhandles : Handles history :=
    .cancel rfl (.create "d" _ (.clone "c" rfl (.clone "b" rfl (.create "a" _ .nil))))
  obtain ⟨hiff, -, hapart, -⟩ := isCancelled_iff_family hhandles
  have hfirst : SameFamily history 0 2 :=
    EqvGen.trans _ 1 _ (.rel _ _ (by decide)) (.rel _ _ (by decide))
  refine ⟨hhandles, (hiff "a" 0 rfl).mpr ⟨2, by decide, hfirst.symm⟩, ?_⟩
  refine Bool.eq_false_iff.mpr fun hcancelled => ?_
  obtain ⟨i, hi, hsame⟩ := (hiff "d" 3 rfl).mp hcancelled
  obtain rfl : i = 2 := by simpa [history, cancels, made?] using hi
  exact absurd (hapart 0 (by decide) 3 (by decide) (hfirst.trans _ _ _ hsame)) (by decide)

end Session

end CollectorTemplate
