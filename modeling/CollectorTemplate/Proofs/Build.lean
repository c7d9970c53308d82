/-
What a build does.

A build opens a span for its context.  If the context was cancelled, that is all.  Otherwise it
enters the context, assembles the exporters, makes template data of them and leaves the context
again.  Both courses are written out here once, and everything else about builds follows from them.

* `build_of_cancelled`, `build_run` : the answer of a build, what it leaves behind and its trace;
* `build_ok_iff` : when a build succeeds;
* `build_eq_ok` : what built data are made of.
-/
import CollectorTemplate.Template.Build
import CollectorTemplate.Proofs.Assembly

namespace CollectorTemplate

/-- The value of work and its trace, one beside the other. -/
theorem Traced.bind_eq {α β : Type} (x : Traced α) (f : α → Traced β) :
    x >>= f = ⟨(f x.value).value, x.trace ++ (f x.value).trace⟩ := rfl

/-- What is seen of data that were built. -/
def builtEvents : Except Error TemplateData → List Emission
  | .error _ => []
  | .ok data => [.event (.built data.size)]

section

variable (b : Builder) (context : ReconcileContext) (resource : Monitoring) (ambient : Ambient)

/-- Nothing is assembled for a cancelled context. -/
theorem build_of_cancelled :
    (build b context true resource).run ambient =
      ⟨(.error (.cancelled context.id), ambient),
        [.opened (.build context.id resource.metadata.name), .event .skippedCancelled]⟩ := rfl

/-- A build that is not cancelled makes data of what is assembled behind its guard, and leaves all
as it was. -/
theorem build_run :
    (build b context false resource).run ambient =
      let assembled := assemble b.reserved (ambient.enter context).2.current?
        (resource.exporters?.getD [])
      let built := assembled.value.map (templateData b.defaults resource.spec)
      ⟨(built, ambient), .opened (.build context.id resource.metadata.name) ::
        (assembled.trace ++ builtEvents built)⟩ := by
  rw [build]
  simp only [Bool.false_eq_true, if_false, StateT.run_bind, StateT.run_monadLift, monadLift_self,
    StateT.run_modifyGet, StateT.run_get]
  simp only [Traced.bind_eq, Traced.value_pure, Traced.trace_pure, Traced.trace_emit,
    List.nil_append, List.append_nil, List.singleton_append]
  generalize assemble b.reserved (ambient.enter context).2.current?
    (resource.exporters?.getD []) = assembled
  obtain ⟨answer, trace⟩ := assembled
  cases answer with
  | error e => rfl
  | ok assembly => rfl

/-- Building cannot fail but in assembly. -/
theorem build_value :
    ((build b context false resource).run ambient).value.1 =
      (assemble b.reserved (ambient.enter context).2.current?
        (resource.exporters?.getD [])).value.map (templateData b.defaults resource.spec) := by
  rw [build_run]

end

/-- A build leaves thread and task as it found them, whether it is cancelled, fails or succeeds. -/
theorem build_ambient (b : Builder) (context : ReconcileContext) (cancelled : Bool)
    (resource : Monitoring) (ambient : Ambient) :
    ((build b context cancelled resource).run ambient).value.2 = ambient := by
  cases cancelled with
  | true => rw [build_of_cancelled]
  | false => rw [build_run]

/-- A build succeeds, unless it is cancelled, if no name is reserved and every fragment is
well-formed. -/
theorem build_ok_iff (b : Builder) (context : ReconcileContext) (cancelled : Bool)
    (resource : Monitoring) (ambient : Ambient) :
    (∃ d, ((build b context cancelled resource).run ambient).value.1 = .ok d) ↔
      cancelled = false ∧
      (∀ source ∈ resource.exporters?.getD [], source.1 ∉ b.reserved.names) ∧
        ∀ source ∈ resource.exporters?.getD [], ∃ tree, Fragment.parse source.2 = .ok tree := by
  cases cancelled with
  | true =>
    refine iff_of_false ?_ fun h => nomatch h.1
    rintro ⟨d, h⟩
    nomatch h
  | false =>
    rw [build_value, eq_self, true_and]
    have hassemble := assemble_ok_iff b.reserved (ambient.enter context).2.current?
      (resource.exporters?.getD [])
    rw [Entries.keys, List.forall_mem_map] at hassemble
    rw [← hassemble]
    cases (assemble b.reserved (ambient.enter context).2.current?
      (resource.exporters?.getD [])).value with
    | error e => simp [Except.map]
    | ok assembly => simp [Except.map]

/-- A build that does not fail assembles all exporters of its resource. -/
theorem build_eq_ok {b : Builder} {context : ReconcileContext} {cancelled : Bool}
    {resource : Monitoring} {ambient : Ambient} {d : TemplateData}
    (h : ((build b context cancelled resource).run ambient).value.1 = .ok d) :
    ∃ assembly, assembly.Views (resource.exporters?.getD []) ∧
      d = templateData b.defaults resource.spec assembly := by
  cases cancelled with
  | true =>
    -- The build of a cancelled context fails before it assembles anything.
    nomatch h
  | false =>
    rw [build_value] at h
    cases hvalue : (assemble b.reserved (ambient.enter context).2.current?
        (resource.exporters?.getD [])).value with
    | error e =>
      rw [hvalue] at h
      nomatch h
    | ok assembly =>
      rw [hvalue] at h
      exact ⟨assembly, views_of_assemble _ _ _ hvalue, (Except.ok.inj h).symm⟩

end CollectorTemplate
