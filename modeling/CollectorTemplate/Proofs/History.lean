/-
Template data over time.

Keys of template data are set, and exporters are assembled and merged, in any order.  What the data
hold then is told by their history: the entries that they began with, and those that each step wrote
since.  An assembly that fails writes nothing.

* `TemplateStep`, `TemplateData.run` : what can be done to template data;
* `TemplateData.history` : all that was written, in its order;
* `TemplateData.get?_run` : what is found at a key was written there last;
* `TemplateData.exporters_run` : merged exporters stay until a step writes to one of their keys;
* `TemplateData.run_characterised` : what holds after all steps.
-/
import CollectorTemplate.Proofs.Assembly
import CollectorTemplate.Proofs.Octets
import CollectorTemplate.Template.Data

namespace CollectorTemplate

/-- What can be done to template data. -/
inductive TemplateStep
  | set (key : String) (value : TemplateValue)
  /-- Assembles exporters, and merges them if that does not fail. -/
  | assemble (reserved : ReservedNames) (ambient : Option String) (sources : Sources)

namespace TemplateStep

/-- The data after a step. -/
def apply (d : TemplateData) : TemplateStep → TemplateData
  | set key value => d.set key value
  | assemble reserved ambient sources =>
    match (CollectorTemplate.assemble reserved ambient sources).value with
    | .ok assembly => d.merge assembly
    | .error _ => d

/-- The entries that a step writes, in their order. -/
def writes : TemplateStep → List (String × TemplateValue)
  | set key value => [(key, value)]
  | assemble reserved ambient sources =>
    match (CollectorTemplate.assemble reserved ambient sources).value with
    | .ok assembly =>
      [(TemplateData.exportersKey, .exporters assembly.exporters),
        (TemplateData.exporterNamesKey, .list assembly.names)]
    | .error _ => []

/-- An assembly that fails. -/
def Fails : TemplateStep → Prop
  | set .. => False
  | assemble reserved ambient sources =>
    ∃ e, (CollectorTemplate.assemble reserved ambient sources).value = .error e

/-- A step that writes to neither of the exporters' keys. -/
def KeepsExporters (step : TemplateStep) : Prop :=
  ∀ key ∈ Entries.keys step.writes,
    key ≠ TemplateData.exportersKey ∧ key ≠ TemplateData.exporterNamesKey

variable {step : TemplateStep}

theorem apply_of_fails (h : step.Fails) (d : TemplateData) : step.apply d = d := by
  cases step with
  | set => exact h.elim
  | assemble reserved ambient sources =>
    obtain ⟨e, he⟩ := h
    rw [apply, he]

/-- A step puts what it writes. -/
theorem entries_apply (step : TemplateStep) (d : TemplateData) : (step.apply d).entries =
    step.writes.foldl (fun table entry => Entries.put entry.1 entry.2 table) d.entries := by
  cases step with
  | set => rfl
  | assemble reserved ambient sources =>
    rw [apply, writes]
    cases (CollectorTemplate.assemble reserved ambient sources).value with
    | ok assembly => rfl
    | error e => rfl

end TemplateStep

namespace TemplateData

/-- The data after all steps, one after another. -/
def run (d : TemplateData) (steps : List TemplateStep) : TemplateData :=
  steps.foldl (fun d step => step.apply d) d

/-- All that was written: what the data began with, and what was written by each step. -/
def history (d : TemplateData) (steps : List TemplateStep) : List (String × TemplateValue) :=
  d.entries ++ steps.flatMap TemplateStep.writes

variable {d : TemplateData} {steps : List TemplateStep}

theorem run_append (d : TemplateData) (steps steps' : List TemplateStep) :
    d.run (steps ++ steps') = (d.run steps).run steps' := List.foldl_append

theorem history_concat (d : TemplateData) (steps : List TemplateStep) (key : String)
    (value : TemplateValue) :
    d.history (steps ++ [.set key value]) = d.history steps ++ [(key, value)] := by
  rw [history, List.flatMap_append, ← List.append_assoc]
  rfl

/-- A run puts what its steps write. -/
theorem entries_run (d : TemplateData) (steps : List TemplateStep) : (d.run steps).entries =
    (steps.flatMap TemplateStep.writes).foldl
      (fun table entry => Entries.put entry.1 entry.2 table) d.entries := by
  induction steps generalizing d with
  | nil => rfl
  | cons step steps ih =>
    rw [List.flatMap_cons, List.foldl_append, ← step.entries_apply]
    exact ih (step.apply d)

theorem distinct_run (distinct : (Entries.keys d.entries).Nodup) (steps : List TemplateStep) :
    (Entries.keys (d.run steps).entries).Nodup := by
  rw [entries_run]
  generalize steps.flatMap TemplateStep.writes = written
  generalize d.entries = entries at distinct
  induction written generalizing entries with
  | nil => exact distinct
  | cons entry written ih => exact ih _ (Entries.nodup_keys_put distinct)

/-- What no step writes to is as it was. -/
theorem get?_run (d : TemplateData) (steps : List TemplateStep) (key : String) :
    (d.run steps).get? key =
      (Entries.find? key (steps.flatMap TemplateStep.writes).reverse).or (d.get? key) := by
  rw [get?, entries_run, Entries.find?_foldl_put]
  rfl

/-- What is found at a key was written there last. -/
theorem get?_run_eq (distinct : (Entries.keys d.entries).Nodup) (key : String) :
    (d.run steps).get? key = Entries.find? key (d.history steps).reverse := by
  rw [get?_run, history, List.reverse_append, Entries.find?_append, Entries.find?_reverse distinct]
  rfl

theorem get?_run_eq_some_iff (distinct : (Entries.keys d.entries).Nodup) {key : String}
    {value : TemplateValue} : (d.run steps).get? key = some value ↔
      ∃ before after, d.history steps = before ++ (key, value) :: after ∧
        key ∉ Entries.keys after := by
  have hkeys (entries : List (String × TemplateValue)) :
      key ∈ Entries.keys entries.reverse ↔ key ∈ Entries.keys entries := by
    rw [Entries.keys, List.map_reverse, List.mem_reverse, Entries.keys]
  rw [get?_run_eq distinct, Entries.find?_eq_some_iff]
  constructor
  · rintro ⟨front, back, hhistory, hfront⟩
    refine ⟨back.reverse, front.reverse, ?_, (hkeys front).not.mpr hfront⟩
    rw [← List.reverse_reverse (d.history steps), hhistory]
    simp
  · rintro ⟨before, after, hhistory, hafter⟩
    refine ⟨after.reverse, before.reverse, ?_, (hkeys after).not.mpr hafter⟩
    rw [hhistory]
    simp

theorem mem_keys_iff {key : String} :
    key ∈ d.keys ↔ ∃ value, d.get? key = some value :=
  (List.mergeSort_perm _ _).mem_iff.trans Entries.mem_keys_iff

theorem mem_keys_run_iff (distinct : (Entries.keys d.entries).Nodup) {key : String} :
    key ∈ (d.run steps).keys ↔ key ∈ Entries.keys (d.history steps) := by
  rw [mem_keys_iff, get?_run_eq distinct, ← Entries.mem_keys_iff, Entries.keys, List.map_reverse,
    List.mem_reverse, Entries.keys]

/-- Keys strictly increase, as octets do. -/
theorem pairwise_keys (distinct : (Entries.keys d.entries).Nodup) :
    d.keys.Pairwise fun key key' => Text.octets key < Text.octets key' := by
  have hkeys : ((Entries.keys d.entries).map fun key => key).Nodup := by rwa [List.map_id']
  have hsorted := Entries.pairwise_mergeSort (fun key => key) hkeys
  rw [List.map_id'] at hsorted
  exact hsorted.imp Text.octets_lt_iff.mpr

theorem size_eq (d : TemplateData) : d.size = d.keys.length := by
  rw [keys, List.length_mergeSort, Entries.keys, List.length_map, size]

/-- Merged exporters stay as long as no step writes to one of their keys. -/
theorem exporters_run (h : ∀ step ∈ steps, step.KeepsExporters) :
    (d.run steps).exporters? = d.exporters? ∧
      (d.run steps).exporterNames? = d.exporterNames? := by
  have hkeeps {key : String} (hkey : key = exportersKey ∨ key = exporterNamesKey) :
      (d.run steps).get? key = d.get? key := by
    rw [get?_run, Entries.find?_eq_none, Option.none_or]
    rintro entry hentry rfl
    obtain ⟨step, hstep, hwrites⟩ := List.mem_flatMap.mp (List.mem_reverse.mp hentry)
    have hne := h step hstep _ (List.mem_map_of_mem hwrites)
    exact hkey.elim hne.1 hne.2
  rw [exporters?, exporters?, hkeeps (.inl rfl), exporterNames?, exporterNames?,
    hkeeps (.inr rfl)]
  exact ⟨rfl, rfl⟩

/-- Both views of merged exporters stand under their keys. -/
theorem exporters_merge (d : TemplateData) (assembly : Assembly) :
    (d.merge assembly).exporters? = some assembly.exporters ∧
      (d.merge assembly).exporterNames? = some assembly.names := by
  have hne : exportersKey ≠ exporterNamesKey := by decide
  constructor
  · rw [exporters?, get?, merge, set, Entries.find?_put, if_neg hne, set, Entries.find?_put,
      if_pos rfl]
    rfl
  · rw [exporterNames?, get?, merge, set, Entries.find?_put, if_pos rfl]
    rfl

/-- An assembly that fails changes nothing, as if it had not been tried.  What is found at a key was
written there last, and nothing is found where nothing was written.  The keys are those that were
written to, once each and in the order of their octets, and they are counted.  Exporters that were
merged stay until another step writes to one of their keys: both views are those of that assembly,
and the names are the keys of the trees, once each in some order. -/
theorem run_characterised (distinct : (Entries.keys d.entries).Nodup)
    (steps : List TemplateStep) :
    (∀ before step after, steps = before ++ step :: after → step.Fails →
      d.run steps = d.run (before ++ after)) ∧
    (∀ key value, (d.run steps).get? key = some value ↔
      ∃ before after, d.history steps = before ++ (key, value) :: after ∧
        key ∉ Entries.keys after) ∧
    (∀ key, (d.run steps).get? key = none ↔ key ∉ Entries.keys (d.history steps)) ∧
    (d.run steps).keys.Pairwise (fun key key' => Text.octets key < Text.octets key') ∧
    (∀ key, key ∈ (d.run steps).keys ↔ key ∈ Entries.keys (d.history steps)) ∧
    (d.run steps).size = (d.run steps).keys.length ∧
    ∀ before reserved ambient sources after assembly,
      steps = before ++ .assemble reserved ambient sources :: after →
      (Entries.keys sources).Nodup →
      (assemble reserved ambient sources).value = .ok assembly →
      (∀ step ∈ after, step.KeepsExporters) →
      (d.run steps).exporters? = some assembly.exporters ∧
        (d.run steps).exporterNames? = some assembly.names ∧
        assembly.names.Nodup ∧ assembly.names.Perm (Entries.keys assembly.exporters) := by
  refine ⟨?_, fun _ _ => get?_run_eq_some_iff distinct, fun key => ?_,
    pairwise_keys (distinct_run distinct steps), fun _ => mem_keys_run_iff distinct,
    size_eq _, ?_⟩
  · rintro before step after rfl hfails
    rw [run_append, run_append, run, List.foldl_cons, step.apply_of_fails hfails]
    rfl
  · rw [← mem_keys_run_iff distinct, mem_keys_iff, Option.eq_none_iff_forall_ne_some, not_exists]
  · rintro before reserved ambient sources after assembly rfl hsources hassembly hafter
    have hviews := views_of_assemble reserved ambient sources hassembly
    have hrun : d.run (before ++ .assemble reserved ambient sources :: after) =
        ((d.run before).merge assembly).run after := by
      rw [run_append, run, List.foldl_cons, TemplateStep.apply, hassembly]
      rfl
    obtain ⟨hexporters, hnames⟩ := exporters_merge (d.run before) assembly
    rw [hrun, (exporters_run hafter).1, (exporters_run hafter).2, hviews.names,
      keys_exporters hviews.exporters, ← hviews.names]
    exact ⟨hexporters, hnames, hviews.names ▸ hsources, .refl _⟩

/-- Steps that set a key of the exporters, fail to assemble some, assemble others instead, and set
another key. -/
def mixedSteps : List TemplateStep :=
  [.set exporterNamesKey (.bool true), .assemble .system none [("debug", "a: [")],
    .assemble .system none [("b", "2"), ("a", "1")], .set "Namespace" (.string "ns")]

/-- The names are there again after the key was set to something else. -/
theorem run_characterised_of_mixed :
    (Entries.keys ({} : TemplateData).entries).Nodup ∧
      (run {} mixedSteps).get? "Namespace" = some (.string "ns") ∧
      ∃ names exporters, (run {} mixedSteps).exporterNames? = some names ∧
        (run {} mixedSteps).exporters? = some exporters ∧ names.Perm (Entries.keys exporters) := by
  have distinct : (Entries.keys ({} : TemplateData).entries).Nodup := .nil
  have hassembled : (assemble .system none [("b", "2"), ("a", "1")]).value.toOption.any
      (fun _ => true) = true := by
    decide +kernel
  obtain ⟨assembly, hassembly, -⟩ := exists_of_any hassembled
  obtain ⟨-, hget, -, -, -, -, hmerged⟩ := run_characterised distinct mixedSteps
  obtain ⟨hexporters, hnames, -, hperm⟩ :=
    hmerged [.set exporterNamesKey (.bool true), .assemble .system none [("debug", "a: [")]]
      .system none _ [.set "Namespace" (.string "ns")] assembly rfl (by decide) hassembly
      fun step hstep key hkey => by
        obtain rfl := List.mem_singleton.mp hstep
        obtain rfl := List.mem_singleton.mp hkey
        decide
  have hlast := history_concat {} mixedSteps.dropLast "Namespace" (.string "ns")
  exact ⟨distinct, (hget _ _).mpr ⟨_, [], hlast, List.not_mem_nil⟩, _, _, hnames, hexporters, hperm⟩

end TemplateData

end CollectorTemplate
