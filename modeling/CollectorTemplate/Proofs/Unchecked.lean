/-
What the configuration lets in.

A resource counts a blank field as unset, and can name a backend only by one of its names.  The
values to fall back to are not looked at in this way: what a configuration writes for a key that the
resource leaves open stands in the data as it is written.

* `Fallback.Admits` : what a resource can set a key to;
* `Fallback.configured?` : the text of the configuration that is in force for a key;
* `build_unchecked` : the data have what no resource can set just where the configuration does;
* `build_lets_in` : a configuration that does.
-/
import CollectorTemplate.Proofs.Fallback
import CollectorTemplate.Proofs.History
import Mathlib.Data.List.Nodup

namespace CollectorTemplate

namespace Fallback

/-- What a resource can set a key to: the backend of traces to one of the names, and any other key
to what is not blank. -/
def Admits : Fallback → String → Prop
  | tracesBackend, s => ∃ backend : TracesBackend, s = backend.name
  | _, s => Text.isBlank s = false

/-- The text that the configuration writes for a key that has no value of its own. -/
def configured? (text : String) (spec : MonitoringSpec) (f : Fallback) : Option String :=
  match f.own? spec with
  | some _ => none
  | none => (f.written? text).bind (·.text?)

variable {f : Fallback} {spec : MonitoringSpec} {value : TemplateValue}

/-- Different keys have different names. -/
theorem key_injective {g : Fallback} (h : f.key = g.key) : f = g := by
  have hall (f : Fallback) : f ∈ ofMetrics ++ ofTraces := by cases f <;> decide
  have hnodup : ((ofMetrics ++ ofTraces).map key).Nodup := by decide
  exact List.inj_on_of_nodup_map hnodup (hall f) (hall g) h

theorem admits_name (backend : TracesBackend) : tracesBackend.Admits backend.name := ⟨backend, rfl⟩

/-- What is built in could be set by a resource too. -/
theorem admits_builtIn (hf : f ≠ replicas) : ∃ s, f.builtIn = .string s ∧ f.Admits s := by
  cases f with
  | replicas => exact absurd rfl hf
  | tracesBackend => exact ⟨_, rfl, .pv, rfl⟩
  | _ => exact ⟨_, rfl, rfl⟩

/-- What a resource sets a key to, it can set the key to. -/
theorem admits_own (hf : f ≠ replicas) (h : f.own? spec = some value) :
    ∃ s, value = .string s ∧ f.Admits s := by
  obtain ⟨hfield, hblank⟩ := Option.filter_eq_some_iff.mp h
  -- All keys but two have the text of a field, which was kept since it is not blank.
  have htext {field : Option String} (h : field.map TemplateValue.string = some value) :
      ∃ s, value = .string s ∧ Text.isBlank s = false := by
    obtain ⟨s, -, rfl⟩ := Option.map_eq_some_iff.mp h
    exact ⟨s, rfl, by simpa [isBlank] using hblank⟩
  cases f with
  | replicas => exact absurd rfl hf
  | tracesBackend =>
    obtain ⟨backend, -, rfl⟩ := Option.map_eq_some_iff.mp hfield
    exact ⟨_, rfl, admits_name backend⟩
  | _ => exact htext hfield

end Fallback

variable {text : String} {resource : Monitoring} {data : TemplateData} {f : Fallback}
  {value : TemplateValue}

/-- Only keys of parts that are switched on are there. -/
theorem BuiltFrom.mem_needed (h : BuiltFrom text resource data)
    (hget : data.get? f.key = some value) : f ∈ Fallback.needed resource.spec := by
  have hmem : f.key ∈ data.keys := TemplateData.mem_keys_iff.mpr ⟨value, hget⟩
  rcases List.mem_append.mp (h.keys_perm.mem_iff.mp hmem) with hname | hkey
  · exact absurd hname (by cases f <;> decide)
  · obtain ⟨g, hg, heq⟩ := List.mem_map.mp hkey
    exact Fallback.key_injective heq ▸ hg

/-- A text stands under a key because the configuration wrote it, or else because the resource set
it or it is built in. -/
theorem BuiltFrom.get?_cases (h : BuiltFrom text resource data) (hf : f ≠ .replicas)
    (hget : data.get? f.key = some value) :
    (∃ s, f.configured? text resource.spec = some s ∧ value = .string s) ∨
      f.configured? text resource.spec = none ∧
        (f.own? resource.spec = some value ∨ value = f.builtIn) := by
  obtain ⟨fallback, hfallback, hvalue⟩ := h.get? (h.mem_needed hget)
  obtain rfl := Option.some.inj (hget.symm.trans hvalue)
  unfold Fallback.configured?
  cases hown : f.own? resource.spec with
  | some own => exact .inr ⟨rfl, .inl rfl⟩
  | none =>
    cases hwritten : f.written? text with
    | none =>
      rw [hwritten] at hfallback
      exact .inr ⟨rfl, .inr (Option.some.inj hfallback).symm⟩
    | some written =>
      rw [hwritten, Option.elim_some] at hfallback
      have htyped : f.typed? written = written.text?.map .string := by
        cases f with
        | replicas => exact absurd rfl hf
        | _ => rfl
      rw [htyped] at hfallback
      obtain ⟨s, hs, rfl⟩ := Option.map_eq_some_iff.mp hfallback
      exact .inl ⟨s, hs, rfl⟩

/-- Every key that falls back to a text has a text, and one that no resource could set just if the
configuration writes such a text for it and the resource leaves the key open. -/
theorem build_unchecked (h : BuiltFrom text resource data) (hf : f ≠ .replicas)
    (hget : data.get? f.key = some value) :
    ∃ s, value = .string s ∧
      (f.Admits s ↔ ∀ written ∈ f.configured? text resource.spec, f.Admits written) := by
  rcases h.get?_cases hf hget with ⟨s, hs, rfl⟩ | ⟨hnone, hvalue⟩
  · refine ⟨s, rfl, ?_⟩
    rw [hs]
    exact ⟨fun hadmits _ hwritten => Option.some.inj hwritten ▸ hadmits, fun hall => hall s rfl⟩
  · -- Without a text of the configuration nothing else comes in.
    have hadmits : ∃ s, value = .string s ∧ f.Admits s := by
      rcases hvalue with hown | rfl
      · exact Fallback.admits_own hf hown
      · exact Fallback.admits_builtIn hf
    obtain ⟨s, rfl, hs⟩ := hadmits
    refine ⟨s, rfl, iff_of_true hs fun written hwritten => ?_⟩
    rw [hnone] at hwritten
    nomatch hwritten

/-- A resource that has all parts switched on and sets nothing in them. -/
def Monitoring.bare : Monitoring :=
  { spec := { space := "ns", metrics := some {}, traces := some {} } }

/-- Texts that no resource could set: a blank one, and the name of no backend. -/
def loose : String := "[defaults]\nstorage_size = \" \"\ntraces_backend = \"azure\"\n"

/-- Beside a blank text that the configuration writes stands one that it does not touch. -/
theorem build_unchecked_of_bare :
    Fallback.storageSize ≠ .replicas ∧ Fallback.cpuLimit ≠ .replicas ∧
      ∃ data, BuiltFrom loose .bare data ∧
        (∃ s, data.get? "StorageSize" = some (.string s) ∧ ¬Fallback.storageSize.Admits s) ∧
        ∃ s, data.get? "CPULimit" = some (.string s) ∧ Fallback.cpuLimit.Admits s := by
  have hread : (Settings.read loose).toOption.any (fun settings =>
      ((build ⟨.system, settings.defaults⟩ ⟨"ctx", 0⟩ false .bare).run {}).value.1.toOption.any
        fun data => (data.get? "StorageSize").isSome && (data.get? "CPULimit").isSome) = true := by
    decide +kernel
  obtain ⟨settings, hsettings, hbuilt⟩ := exists_of_any hread
  obtain ⟨data, hdata, hkeys⟩ := exists_of_any hbuilt
  have hfrom : BuiltFrom loose .bare data := ⟨_, _, _, _, _, hsettings, hdata⟩
  obtain ⟨hsize, hlimit⟩ := Bool.and_eq_true_iff.mp hkeys
  obtain ⟨size, hsize⟩ := Option.isSome_iff_exists.mp hsize
  obtain ⟨limit, hlimit⟩ := Option.isSome_iff_exists.mp hlimit
  have hblank : Fallback.storageSize.configured? loose Monitoring.bare.spec = some " " := by
    decide +kernel
  have hnone : Fallback.cpuLimit.configured? loose Monitoring.bare.spec = none := by
    decide +kernel
  refine ⟨by decide, by decide, data, hfrom, ?_, ?_⟩
  · obtain ⟨s, rfl, hadmits⟩ := build_unchecked (f := .storageSize) hfrom (by decide) hsize
    refine ⟨s, hsize, fun h => ?_⟩
    exact absurd (hadmits.mp h " " hblank) (by simp [Fallback.Admits]; decide)
  · obtain ⟨s, rfl, hadmits⟩ := build_unchecked (f := .cpuLimit) hfrom (by decide) hlimit
    refine ⟨s, hlimit, hadmits.mpr fun written hwritten => ?_⟩
    rw [hnone] at hwritten
    nomatch hwritten

/-- A blank text and the name of no backend come into the data through the configuration. -/
theorem build_lets_in :
    ∃ data, BuiltFrom loose .bare data ∧
      (data.get? "StorageSize").bind (·.string?) = some " " ∧ Text.isBlank " " = true ∧
      (data.get? "TracesBackend").bind (·.string?) = some "azure" ∧
      ∀ backend : TracesBackend, backend.name ≠ "azure" := by
  have hread : (Settings.read loose).toOption.any (fun settings =>
      ((build ⟨.system, settings.defaults⟩ ⟨"ctx", 0⟩ false .bare).run {}).value.1.toOption.any
        fun data => (data.get? "StorageSize").bind (·.string?) == some " " &&
          (data.get? "TracesBackend").bind (·.string?) == some "azure") = true := by
    decide +kernel
  obtain ⟨settings, hsettings, hbuilt⟩ := exists_of_any hread
  obtain ⟨data, hdata, hkeys⟩ := exists_of_any hbuilt
  obtain ⟨hsize, hbackend⟩ := Bool.and_eq_true_iff.mp hkeys
  refine ⟨data, ⟨_, _, _, _, _, hsettings, hdata⟩, beq_iff_eq.mp hsize, by decide,
    beq_iff_eq.mp hbackend, fun backend => ?_⟩
  cases backend <;> decide

end CollectorTemplate
