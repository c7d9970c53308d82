/-
Blocks that lie within one another.

A guard from its entering to its leaving, a task that runs to its end, and a build are blocks.
Where the blocks of a thread lie within one another, what is on the thread and in the task is told
by the blocks that are open, and each block leaves both as it found them.

* `Session.WellNested` : steps whose blocks lie within one another;
* `Session.Point` : a point of such steps, with the guards and tasks that are open there;
* `Session.WellNested.run_spec` : what such steps leave as it was;
* `Session.current?_nested` : the reconciliation that work at a point belongs to, and what the
  blocks and the builds after the point leave as it was.
-/
import CollectorTemplate.Proofs.Reconcile.Enclosure
import CollectorTemplate.Proofs.Reconcile.Guards

namespace CollectorTemplate

/-! ### The innermost of what is open -/

/-- The context of a guard. -/
def Enclosure.guard? : Enclosure → Option ReconcileContext
  | .guard context => some context
  | .task _ => none

/-- The context of the innermost guard. -/
def innermostGuard? (enclosures : List Enclosure) : Option ReconcileContext :=
  enclosures.reverse.findSome? Enclosure.guard?

/-- The reconciliation that work within enclosures belongs to: that of the innermost task, of the
innermost guard if there is no task, and none if there is no guard either. -/
def innermostId? (enclosures : List Enclosure) : Option String :=
  ((innermostTask? enclosures).or (innermostGuard? enclosures)).map (·.id)

theorem innermostGuard?_concat (enclosures : List Enclosure) (last : Enclosure) :
    innermostGuard? (enclosures ++ [last]) = last.guard?.or (innermostGuard? enclosures) := by
  rw [innermostGuard?, List.reverse_concat, List.findSome?_cons]
  cases last with
  | guard context => rfl
  | task context => rfl

namespace Ambient

/-- A task hides the guards around it and within it. -/
theorem current?_within (enclosures : List Enclosure) :
    (within enclosures).current? = innermostId? enclosures := by
  induction enclosures using List.reverseRecOn with
  | nil => rfl
  | append_singleton enclosures last ih =>
    rw [within_concat, innermostId?, innermostTask?_concat, innermostGuard?_concat]
    cases last with
    | guard context =>
      show ((within enclosures).task.or (some context)).map (·.id) = _
      rw [task_within]
      rfl
    | task context => rfl

end Ambient

/-- Whether a step handles contexts and puts none anywhere. -/
def Step.isBare : Step → Bool
  | .create .. | .clone .. | .cancel _ | .isCancelled _ | .current => true
  | _ => false

namespace Session

/-! ### Nested blocks -/

/-- Steps whose blocks lie within one another.  `held` are the guards around them, which they do not
touch. -/
inductive WellNested : (held : List String) → List Step → Prop
  | nil (held : List String) : WellNested held []
  | bare {held : List String} {step : Step} {rest : List Step} (hbare : step.isBare = true)
      (hrest : WellNested held rest) : WellNested held (step :: rest)
  | guard {held : List String} {guard : String} {inner rest : List Step} (label : String)
      (hnew : guard ∉ held) (hinner : WellNested (guard :: held) inner)
      (hrest : WellNested held rest) :
      WellNested held (.enter label guard :: (inner ++ .exit guard :: rest))
  | task {held : List String} {inner rest : List Step} (label : String)
      (hinner : WellNested held inner) (hrest : WellNested held rest) :
      WellNested held (.scope label inner :: rest)
  | build {held : List String} {rest : List Step} (label : String) (resource : Monitoring)
      (hrest : WellNested held rest) : WellNested held (.build label resource :: rest)

/-- Steps from `s` on leave what work finds around it, and the guards that are held, as they are
there. -/
structure Keeps (s t : Session) : Prop where
  ambient : t.ambient = s.ambient
  guards : ∀ guard, Entries.find? guard t.guards = Entries.find? guard s.guards

namespace Keeps

variable {s t u : Session}

theorem refl (s : Session) : Keeps s s := ⟨rfl, fun _ => rfl⟩

theorem trans (h : Keeps s t) (h' : Keeps t u) : Keeps s u :=
  ⟨h'.ambient.trans h.ambient, fun guard => (h'.guards guard).trans (h.guards guard)⟩

end Keeps

variable {s t : Session} {steps block rest inner : List Step} {held : List String}
  {enclosures : List Enclosure} {guard : String}

theorem keeps_bare {step : Step} (h : step.isBare = true) (s : Session) :
    Keeps s (s.step step).2 := by
  cases step with
  | enter | exit | scope | build => nomatch h
  | _ => exact ⟨rfl, fun _ => rfl⟩

theorem enter_of_free (label : String) (hfree : Entries.find? guard s.guards = none) :
    s.enter label guard = { s with
      ambient := (s.ambient.enter (s.context label)).2
      guards := Entries.insert guard ⟨s.ambient.thread⟩ s.guards } := by
  rw [Session.enter, hfree]
  rfl

theorem exit_of_held {old : Guard} (h : Entries.find? guard s.guards = some old) :
    s.exit guard = { s with
      ambient := s.ambient.leave old
      guards := s.guards.filter (·.1 != guard) } := by
  rw [Session.exit, h]

/-- A guard around steps that keep what they find restores what was there before it. -/
theorem keeps_guard (label : String) (hfree : Entries.find? guard s.guards = none)
    (h : Keeps (s.enter label guard) t) : Keeps s (t.exit guard) := by
  obtain ⟨hambient, hguards⟩ := h
  rw [enter_of_free label hfree] at hambient hguards
  have hheld : Entries.find? guard t.guards = some ⟨s.ambient.thread⟩ := by
    rw [hguards, Entries.find?_insert, if_pos rfl]
  rw [exit_of_held hheld]
  constructor
  · show t.ambient.leave _ = _
    rw [hambient]
    rfl
  · intro other
    show Entries.find? other (t.guards.filter (·.1 != guard)) = _
    rw [Entries.find?_filter_ne, hguards, Entries.find?_insert]
    by_cases hother : other = guard
    · rw [if_pos hother, hother, hfree]
    · rw [if_neg hother, if_neg hother]

/-- A task whose steps keep what they find restores what was there before it. -/
theorem keeps_task (label : String)
    (h : Keeps { s with ambient := (s.ambient.begin (s.context label)).2 }
      (run { s with ambient := (s.ambient.begin (s.context label)).2 } inner).2) :
    Keeps s (s.step (.scope label inner)).2 := by
  rw [step]
  refine ⟨?_, h.guards⟩
  show Ambient.finish (s.ambient.begin (s.context label)).1 _ = _
  rw [h.ambient]
  rfl

theorem keeps_build (label : String) (resource : Monitoring) (s : Session) :
    Keeps s (s.step (.build label resource)).2 := by
  rw [step]
  exact ⟨build_ambient {} (s.context label) _ resource s.ambient, fun _ => rfl⟩

/-- Nested blocks keep what they find. -/
theorem WellNested.run_spec (h : WellNested held steps) {s : Session}
    (hfree : ∀ guard ∉ held, Entries.find? guard s.guards = none) : Keeps s (s.run steps).2 := by
  induction h generalizing s with
  | nil held =>
    rw [run]
    exact .refl s
  | bare hbare _ ih =>
    rw [run_cons]
    have hkeeps := keeps_bare hbare s
    exact hkeeps.trans (ih fun guard hnew => (hkeeps.guards guard).trans (hfree guard hnew))
  | @guard held guard inner rest label hnew _ _ ihinner ihrest =>
    rw [run_cons, run_append, run_cons]
    -- Within the block its guard is held, and all others are as before it.
    have hinside : ∀ other ∉ guard :: held,
        Entries.find? other (s.enter label guard).guards = none := by
      intro other hother
      obtain ⟨hne, hother⟩ := not_or.mp (mt List.mem_cons.mpr hother)
      rw [enter_of_free label (hfree guard hnew)]
      show Entries.find? other (Entries.insert guard _ s.guards) = none
      rw [Entries.find?_insert, if_neg hne, hfree other hother]
    have hkeeps := keeps_guard label (hfree guard hnew) (ihinner hinside)
    exact hkeeps.trans (ihrest fun other hother =>
      (hkeeps.guards other).trans (hfree other hother))
  | task label _ _ ihinner ihrest =>
    rw [run_cons]
    have hkeeps := keeps_task label (ihinner (s := { s with
      ambient := (s.ambient.begin (s.context label)).2 }) hfree)
    exact hkeeps.trans (ihrest fun guard hnew => (hkeeps.guards guard).trans (hfree guard hnew))
  | build label resource _ ih =>
    rw [run_cons]
    have hkeeps := keeps_build label resource s
    exact hkeeps.trans (ih fun guard hnew => (hkeeps.guards guard).trans (hfree guard hnew))

/-! ### Points of a run -/

/-- A point of steps that begin in `s`: the guards that are held there by label, the guards and
tasks that are open, the outermost first, what the thread knows, and the steps to come in the
innermost block. -/
inductive Point (s : Session) (steps : List Step) :
    (held : List String) → List Enclosure → Session → List Step → Prop
  | start : Point s steps [] [] s steps
  | past {held : List String} {enclosures : List Enclosure} {t : Session} {block rest : List Step}
      (h : Point s steps held enclosures t (block ++ rest)) (hblock : WellNested held block) :
      Point s steps held enclosures (t.run block).2 rest
  | guard {held : List String} {enclosures : List Enclosure} {t : Session} {label guard : String}
      {rest : List Step} (h : Point s steps held enclosures t (.enter label guard :: rest))
      (hnew : guard ∉ held) :
      Point s steps (guard :: held) (enclosures ++ [.guard (t.context label)])
        (t.enter label guard) rest
  | task {held : List String} {enclosures : List Enclosure} {t : Session} {label : String}
      {inner rest : List Step} (h : Point s steps held enclosures t (.scope label inner :: rest)) :
      Point s steps held (enclosures ++ [.task (t.context label)])
        { t with ambient := (t.ambient.begin (t.context label)).2 } inner

/-- At each point work finds the guards and tasks that are open, and no others are held. -/
theorem Point.spec (h : Point s steps held enclosures t rest) (hambient : s.ambient = {})
    (hguards : s.guards = []) :
    t.ambient = .within enclosures ∧ ∀ guard ∉ held, Entries.find? guard t.guards = none := by
  induction h with
  | start =>
    refine ⟨hambient, fun guard _ => ?_⟩
    rw [hguards]
    rfl
  | past _ hblock ih =>
    obtain ⟨hwithin, hfree⟩ := ih
    have hkeeps := hblock.run_spec hfree
    exact ⟨hkeeps.ambient.trans hwithin, fun guard hnew =>
      (hkeeps.guards guard).trans (hfree guard hnew)⟩
  | @guard held enclosures t label guard rest _ hnew ih =>
    obtain ⟨hwithin, hfree⟩ := ih
    rw [enter_of_free label (hfree guard hnew), Ambient.within_concat, ← hwithin]
    refine ⟨rfl, fun other hother => ?_⟩
    obtain ⟨hne, hother⟩ := not_or.mp (mt List.mem_cons.mpr hother)
    show Entries.find? other (Entries.insert guard _ t.guards) = none
    rw [Entries.find?_insert, if_neg hne, hfree other hother]
  | task _ ih =>
    obtain ⟨hwithin, hfree⟩ := ih
    rw [Ambient.within_concat, ← hwithin]
    exact ⟨rfl, hfree⟩

/-- At each point of steps on a thread with nothing on it, work belongs to the innermost task, or to
the innermost guard if there is no task, and to none if there is no guard either.  Blocks that begin
at the point leave thread and task as they found them.  So does a build, whatever comes of it, and
if it is not cancelled its assembly is tagged with what work belongs to within the build's own
guard. -/
theorem current?_nested (hambient : s.ambient = {}) (hguards : s.guards = [])
    (h : Point s steps held enclosures t rest) :
    t.ambient.current? = innermostId? enclosures ∧
      (∀ block, WellNested held block → (t.run block).2.ambient = t.ambient) ∧
      ∀ b label resource,
        ((build b (t.context label) (t.isCancelled (t.context label)) resource).run
          t.ambient).value.2 = t.ambient ∧
        (t.isCancelled (t.context label) = false → ∃ id later,
          ((build b (t.context label) (t.isCancelled (t.context label)) resource).run
              t.ambient).trace =
            .opened (.build (t.context label).id resource.metadata.name) ::
              .opened (.assemble (resource.exporters?.getD []).length) :: .tagged id :: later ∧
          innermostId? (enclosures ++ [.guard (t.context label)]) = some id) := by
  obtain ⟨hwithin, hfree⟩ := h.spec hambient hguards
  refine ⟨?_, fun block hblock => (hblock.run_spec hfree).ambient, fun b label resource => ?_⟩
  · rw [hwithin, Ambient.current?_within]
  refine ⟨build_ambient b _ _ resource t.ambient, fun hcancelled => ?_⟩
  rw [hcancelled]
  obtain ⟨last, htrace, -⟩ := build_trace b (t.context label) resource t.ambient
  -- What the assembly reads is what work finds one guard further in.
  have hinside : (t.ambient.enter (t.context label)).2 =
      .within (enclosures ++ [.guard (t.context label)]) := by
    rw [Ambient.within_concat, hwithin]
    rfl
  have hid : ∃ id, innermostId? (enclosures ++ [.guard (t.context label)]) = some id := by
    rw [← Ambient.current?_within, ← hinside, Ambient.current?_enter]
    exact ⟨_, rfl⟩
  obtain ⟨id, hid⟩ := hid
  rw [hinside, Ambient.current?_within, hid] at htrace
  obtain ⟨later, hassemble, -⟩ := assemble_trace b.reserved id (resource.exporters?.getD [])
  rw [hassemble] at htrace
  exact ⟨id, later ++ last, htrace, hid⟩

/-- Within a guard within a task, work belongs to the task, and a build there changes nothing. -/
theorem current?_nested_in_task :
    ofTwoContexts.ambient = {} ∧ ofTwoContexts.guards = [] ∧ ∃ t,
      Point ofTwoContexts [.scope "a" [.enter "b" "g", .build "b" {}, .exit "g"]] ["g"]
        [.task ⟨"first", 0⟩, .guard ⟨"second", 1⟩] t [.build "b" {}, .exit "g"] ∧
      t.ambient.current? = some "first" ∧ (t.run [.build "b" {}]).2.ambient = t.ambient := by
  have hstart : Point ofTwoContexts [.scope "a" [.enter "b" "g", .build "b" {}, .exit "g"]] [] []
      ofTwoContexts [.scope "a" [.enter "b" "g", .build "b" {}, .exit "g"]] := .start
  have hpoint := hstart.task.guard (List.not_mem_nil (a := "g"))
  obtain ⟨hid, hkept, -⟩ := current?_nested rfl rfl hpoint
  exact ⟨rfl, rfl, _, hpoint, hid, hkept _ (.build "b" {} (.nil _))⟩

end Session

end CollectorTemplate
