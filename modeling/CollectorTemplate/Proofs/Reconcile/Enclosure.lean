/-
Work within guards and tasks.

Work may go on within any number of guards and tasks.  Building enters a guard of its own for its
context, but a task wins over all guards.  So assembly is tagged with the innermost task that
encloses the build, and with the build's own context only if there is none.

* `Ambient.within` : what work finds within guards and tasks;
* `build_tags` : the name on the span of a build, and what its assembly is tagged with.
-/
import CollectorTemplate.Proofs.Build
import Mathlib.Data.List.Induction

namespace CollectorTemplate

/-! ### Guards and tasks around work -/

/-- What work goes on in. -/
inductive Enclosure
  | guard (context : ReconcileContext)
  | task (context : ReconcileContext)

/-- The context of a task. -/
def Enclosure.task? : Enclosure → Option ReconcileContext
  | .guard _ => none
  | .task context => some context

/-- The context of the innermost task. -/
def innermostTask? (enclosures : List Enclosure) : Option ReconcileContext :=
  enclosures.reverse.findSome? Enclosure.task?

theorem innermostTask?_concat (enclosures : List Enclosure) (last : Enclosure) :
    innermostTask? (enclosures ++ [last]) = last.task?.or (innermostTask? enclosures) := by
  rw [innermostTask?, List.reverse_concat, List.findSome?_cons]
  cases last with
  | guard context => rfl
  | task context => rfl

namespace Ambient

/-- What work finds one enclosure further in. -/
def inside (a : Ambient) : Enclosure → Ambient
  | .guard context => (a.enter context).2
  | .task context => (a.begin context).2

/-- What work finds within enclosures, of which the outermost comes first. -/
def within (enclosures : List Enclosure) : Ambient := enclosures.foldl inside {}

theorem within_concat (enclosures : List Enclosure) (last : Enclosure) :
    within (enclosures ++ [last]) = (within enclosures).inside last := by
  rw [within, List.foldl_append]
  rfl

/-- A guard leaves the task as it is, and a new task takes its place. -/
theorem task_within (enclosures : List Enclosure) :
    (within enclosures).task = innermostTask? enclosures := by
  induction enclosures using List.reverseRecOn with
  | nil => rfl
  | append_singleton enclosures last ih =>
    rw [within_concat, innermostTask?_concat]
    cases last with
    | guard context => exact ih
    | task context => rfl

/-- What work finds behind one more guard. -/
theorem current?_enter (a : Ambient) (context : ReconcileContext) :
    (a.enter context).2.current? = some (a.task.getD context).id := by
  show (a.task.or (some context)).map (·.id) = _
  cases a.task <;> rfl

end Ambient

/-! ### Tags of a build -/

/-- Parsing tags nothing. -/
theorem not_tagged_parseAll (sources : Sources) (id : String) :
    .tagged id ∉ (parseAll sources).trace := by
  induction sources with
  | nil => exact List.not_mem_nil
  | cons source rest ih =>
    obtain ⟨name, raw⟩ := source
    rw [parseAll]
    split
    · simp [Traced.emit]
    · simpa using ih

/-- Assembly opens its span and is tagged at once, and nothing is tagged afterwards. -/
theorem assemble_trace (reserved : ReservedNames) (id : String) (sources : Sources) :
    ∃ rest, (assemble reserved (some id) sources).trace =
        .opened (.assemble sources.length) :: .tagged id :: rest ∧
      ∀ other, .tagged other ∉ rest := by
  rw [assemble, tagWork]
  cases sources.find? fun source => reserved.contains source.1 with
  | some source =>
    refine ⟨_, rfl, fun other => ?_⟩
    simp
  | none =>
    simp only [Traced.trace_bind, Traced.trace_emit, List.cons_append, List.nil_append]
    refine ⟨_, rfl, fun other hmem => ?_⟩
    rcases List.mem_append.mp hmem with hmem | hmem
    · exact not_tagged_parseAll sources other hmem
    · revert hmem
      cases (parseAll sources).value with
      | error e => exact List.not_mem_nil
      | ok assembly => simp

/-- A build opens its span, assembles, and tags nothing afterwards. -/
theorem build_trace (b : Builder) (context : ReconcileContext) (resource : Monitoring)
    (ambient : Ambient) :
    ∃ rest, ((build b context false resource).run ambient).trace =
        .opened (.build context.id resource.metadata.name) ::
          ((assemble b.reserved (ambient.enter context).2.current?
            (resource.exporters?.getD [])).trace ++ rest) ∧
      ∀ other, .tagged other ∉ rest := by
  rw [build_run]
  refine ⟨_, rfl, fun other => ?_⟩
  cases (assemble b.reserved (ambient.enter context).2.current?
      (resource.exporters?.getD [])).value with
  | error e => simp [Except.map, builtEvents]
  | ok assembly => simp [Except.map, builtEvents]

/-- A build within guards and tasks names its own context on its span, and its assembly is tagged
with the innermost task, or with the build's own context if there is no task.  Nothing is tagged
after that.  So both agree just if the innermost task, if there is one, has the name of the
context. -/
theorem build_tags (b : Builder) (enclosures : List Enclosure) (context : ReconcileContext)
    (resource : Monitoring) :
    ∃ id rest, ((build b context false resource).run (.within enclosures)).trace =
        .opened (.build context.id resource.metadata.name) ::
          .opened (.assemble (resource.exporters?.getD []).length) :: .tagged id :: rest ∧
      (∀ other, .tagged other ∉ rest) ∧
      id = ((innermostTask? enclosures).getD context).id ∧
      (id = context.id ↔ ∀ task ∈ innermostTask? enclosures, task.id = context.id) := by
  obtain ⟨last, htrace, hlast⟩ := build_trace b context resource (.within enclosures)
  rw [Ambient.current?_enter, Ambient.task_within] at htrace
  obtain ⟨rest, hassemble, hrest⟩ := assemble_trace b.reserved
    ((innermostTask? enclosures).getD context).id (resource.exporters?.getD [])
  rw [hassemble] at htrace
  refine ⟨_, rest ++ last, htrace, fun other hmem => ?_, rfl, ?_⟩
  · exact (List.mem_append.mp hmem).elim (hrest other) (hlast other)
  · cases innermostTask? enclosures with
    | none => simp
    | some task => simp

/-- Within a task of another name the assembly is tagged with that name, and not with the one that
the span of the build has. -/
theorem build_tags_other_task :
    ∃ rest, ((build {} ⟨"inner", 1⟩ false {}).run (.within [.task ⟨"outer", 0⟩])).trace =
      .opened (.build "inner" "") :: .opened (.assemble 0) :: .tagged "outer" :: rest ∧
      "outer" ≠ "inner" :=
  ⟨_, rfl, by decide⟩

end CollectorTemplate
