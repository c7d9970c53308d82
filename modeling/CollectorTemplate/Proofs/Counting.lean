/-
Counting assemblies.

An assembly is counted where it ends, and it can end in three places: at a reserved name, at a
malformed fragment, which is met in the walk over the fragments, and behind the last fragment.  Each
way out passes one count, that of its own status, and whoever calls for an assembly adds none.

* `assemblies_counted` : an assembly is counted once, under the status of its answer, a diagnosis
  never, and a build as often as it assembles.
-/
import CollectorTemplate.Proofs.Build

namespace CollectorTemplate

namespace Traced

variable {α β : Type}

@[simp] theorem counts_pure (value : α) : (pure value : Traced α).counts = [] := rfl

@[simp] theorem counts_bind (x : Traced α) (f : α → Traced β) :
    (x >>= f).counts = x.counts ++ (f x.value).counts := by
  simp only [counts, trace_bind, List.filterMap_append]

@[simp] theorem counts_opened (span : Span) : (emit (.opened span)).counts = [] := rfl

end Traced

@[simp] theorem tagWork_counts (ambient : Option String) : (tagWork ambient).counts = [] := by
  cases ambient <;> rfl

/-- The status tells how the answer came out, each of its labels for one kind of answer. -/
structure AssemblyStatus.Tells {α : Type} (status : AssemblyStatus) (answer : Except Error α) :
    Prop where
  success : status.label = "success" ↔ ∃ a, answer = .ok a
  reservedName : status.label = "reserved_name" ↔ ∃ name, answer = .error (.reservedName name)
  invalidYaml : status.label = "invalid_yaml" ↔
    ∃ name cause, answer = .error (.invalidYaml name cause)

namespace AssemblyStatus.Tells

variable {α : Type}

theorem of_ok (a : α) : AssemblyStatus.success.Tells (.ok a) := by
  constructor <;> simp [label]

theorem of_reservedName (name : String) :
    AssemblyStatus.reservedName.Tells (.error (.reservedName name) : Except Error α) := by
  constructor <;> simp [label]

theorem of_invalidYaml (name : String) (cause : SyntaxError) :
    AssemblyStatus.invalidYaml.Tells (.error (.invalidYaml name cause) : Except Error α) := by
  constructor <;> simp [label]

/-- What is made of a good answer afterwards changes nothing. -/
theorem map {β : Type} {status : AssemblyStatus} {answer : Except Error α}
    (h : status.Tells answer) (f : α → β) : status.Tells (answer.map f) := by
  obtain ⟨hsuccess, hreserved, hinvalid⟩ := h
  cases answer with
  | error e => exact ⟨hsuccess.trans (by simp [Except.map]), hreserved.trans (by simp [Except.map]),
      hinvalid.trans (by simp [Except.map])⟩
  | ok a => exact ⟨hsuccess.trans (by simp [Except.map]), hreserved.trans (by simp [Except.map]),
      hinvalid.trans (by simp [Except.map])⟩

end AssemblyStatus.Tells

/-- The walk over the fragments counts where it ends early, and there once. -/
theorem parseAll_counts (sources : Sources) :
    (∃ assembly, (parseAll sources).value = .ok assembly ∧ (parseAll sources).counts = []) ∨
      ∃ name cause, (parseAll sources).value = .error (.invalidYaml name cause) ∧
        (parseAll sources).counts = [.invalidYaml] := by
  induction sources with
  | nil => exact .inl ⟨{}, rfl, rfl⟩
  | cons source rest ih =>
    obtain ⟨name, raw⟩ := source
    rw [parseAll]
    cases Fragment.parse raw with
    | error cause => exact .inr ⟨name, cause, rfl, rfl⟩
    | ok tree =>
      simp only [Traced.value_bind, Traced.value_pure, Traced.counts_bind, Traced.counts_pure,
        List.append_nil]
      -- A fragment that is well-formed leaves the count to those behind it.
      rcases ih with ⟨assembly, hvalue, hcounts⟩ | ⟨bad, cause, hvalue, hcounts⟩
      · exact .inl ⟨_, congrArg _ hvalue, hcounts⟩
      · exact .inr ⟨bad, cause, congrArg _ hvalue, hcounts⟩

theorem assemble_counts (reserved : ReservedNames) (ambient : Option String) (sources : Sources) :
    ∃ status, (assemble reserved ambient sources).counts = [status] ∧
      status.Tells (assemble reserved ambient sources).value := by
  rw [assemble]
  simp only [Traced.counts_bind, Traced.value_bind, Traced.counts_opened, tagWork_counts,
    List.nil_append]
  cases sources.find? fun source => reserved.contains source.1 with
  | some source => exact ⟨.reservedName, rfl, .of_reservedName source.1⟩
  | none =>
    simp only [Traced.counts_bind, Traced.value_bind]
    rcases parseAll_counts sources with ⟨assembly, hvalue, hcounts⟩ | ⟨name, cause, hvalue, hcounts⟩
    · rw [hvalue, hcounts]
      exact ⟨.success, rfl, .of_ok assembly⟩
    · rw [hvalue, hcounts]
      exact ⟨.invalidYaml, rfl, .of_invalidYaml name cause⟩

theorem diagnose_counts (reserved : ReservedNames) (ambient : Option String) (sources : Sources) :
    (diagnose reserved ambient sources).counts = [] := by
  rw [diagnose]
  simp only [Traced.counts_bind, Traced.counts_opened, tagWork_counts, Traced.counts_pure,
    List.append_nil]

section

variable (b : Builder) (context : ReconcileContext) (resource : Monitoring) (ambient : Ambient)

theorem build_counts_of_cancelled :
    ((build b context true resource).run ambient).counts = [] := rfl

/-- A build counts nothing but its assembly. -/
theorem build_counts_eq :
    ((build b context false resource).run ambient).counts =
      (assemble b.reserved (ambient.enter context).2.current?
        (resource.exporters?.getD [])).counts := by
  rw [build_run]
  refine List.filterMap_append.trans (List.append_right_eq_self.mpr ?_)
  cases (assemble b.reserved (ambient.enter context).2.current?
      (resource.exporters?.getD [])).value with
  | error e => rfl
  | ok assembly => rfl

/-- A build ends as its assembly does, and so the count of the assembly tells its answer too. -/
theorem build_counts :
    ∃ status, ((build b context false resource).run ambient).counts = [status] ∧
      status.Tells ((build b context false resource).run ambient).value.1 := by
  rw [build_counts_eq, build_value]
  obtain ⟨status, hcounts, htells⟩ := assemble_counts b.reserved
    (ambient.enter context).2.current? (resource.exporters?.getD [])
  exact ⟨status, hcounts, htells.map _⟩

end

/-- Whatever names are reserved, whatever the map holds, in whatever order it gives its entries, and
within whatever reconciliation, an assembly is counted once, under the status of its answer, and a
diagnosis is not counted.  A build is counted once, under the status of its own answer, unless it is
cancelled, and then it is not counted. -/
theorem assemblies_counted :
    (∀ (reserved : ReservedNames) (ambient : Option String) (sources : Sources),
      (∃ status, (assemble reserved ambient sources).counts = [status] ∧
        status.Tells (assemble reserved ambient sources).value) ∧
      (diagnose reserved ambient sources).counts = []) ∧
    ∀ (b : Builder) (context : ReconcileContext) (resource : Monitoring) (ambient : Ambient),
      (∃ status, ((build b context false resource).run ambient).counts = [status] ∧
        status.Tells ((build b context false resource).run ambient).value.1) ∧
      ((build b context true resource).run ambient).counts = [] :=
  ⟨fun reserved ambient sources =>
    ⟨assemble_counts reserved ambient sources, diagnose_counts reserved ambient sources⟩,
    fun b context resource ambient =>
      ⟨build_counts b context resource ambient,
        build_counts_of_cancelled b context resource ambient⟩⟩

end CollectorTemplate
