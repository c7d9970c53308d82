/-
Assembling and diagnosing exporters.

Both walk over the entries of a map whose order nobody promises, `assemble` until the first failure
and `diagnose` over all of them.  What they answer depends on the entries alone:

* `assemble_characterised` : when assembly succeeds, what both views then hold, and which failure is
  told otherwise;
* `diagnose_characterised` : the problems are those of the entries, once each and in the order of
  names, and they agree with what assembly does on the same map.

The invariant behind both views is `Assembly.Views`: they list the sources in their order, each name
beside the tree of its own fragment.
-/
import CollectorTemplate.Assembly
import CollectorTemplate.Proofs.Entries
import Mathlib.Data.List.Forall2

namespace CollectorTemplate

/-- A result is found where a test of results succeeds. -/
theorem exists_of_any {ε α : Type} {x : Except ε α} {p : α → Bool}
    (h : x.toOption.any p = true) : ∃ a, x = .ok a ∧ p a = true := by
  cases x with
  | error e => nomatch h
  | ok a => exact ⟨a, rfl, h⟩

/-! ### Parsing all fragments -/

/-- The exporter holds the tree of the source's own fragment, under the source's name. -/
def IsExporterOf (source : String × String) (exporter : String × Tree) : Prop :=
  exporter.1 = source.1 ∧ Fragment.parse source.2 = .ok exporter.2

/-- Both views list the sources in their order, each name with the tree of its own fragment. -/
structure Assembly.Views (sources : Sources) (assembly : Assembly) : Prop where
  names : assembly.names = Entries.keys sources
  exporters : List.Forall₂ IsExporterOf sources assembly.exporters

/-- Lists whose members correspond have the same images if corresponding members have. -/
theorem map_eq_of_forall₂ {α β γ : Type} {rel : α → β → Prop} {f : α → γ} {g : β → γ}
    {left : List α} {right : List β} (h : List.Forall₂ rel left right)
    (heq : ∀ a ∈ left, ∀ b, rel a b → f a = g b) : left.map f = right.map g := by
  induction h with
  | nil => rfl
  | cons head _ ih =>
    obtain ⟨hhead, htail⟩ := List.forall_mem_cons.mp heq
    rw [List.map_cons, List.map_cons, hhead _ head, ih htail]

theorem keys_exporters {sources : Sources} {exporters : List (String × Tree)}
    (h : List.Forall₂ IsExporterOf sources exporters) :
    Entries.keys exporters = Entries.keys sources :=
  (map_eq_of_forall₂ h fun _ _ _ hexporter => hexporter.1.symm).symm

/-- What stands on one side of a correspondence has its counterpart on the other. -/
theorem related_of_mem {α β : Type} {rel : α → β → Prop} {left : List α} {right : List β}
    (h : List.Forall₂ rel left right) {a : α} (ha : a ∈ left) : ∃ b ∈ right, rel a b := by
  induction h with
  | nil => exact absurd ha List.not_mem_nil
  | cons head _ ih =>
    rcases List.mem_cons.mp ha with rfl | ha
    · exact ⟨_, List.mem_cons_self, head⟩
    · obtain ⟨b, hb, hrel⟩ := ih ha
      exact ⟨b, List.mem_cons_of_mem _ hb, hrel⟩

theorem exporter_of_mem {sources : Sources} {exporters : List (String × Tree)}
    (h : List.Forall₂ IsExporterOf sources exporters) {name raw : String}
    (hmem : (name, raw) ∈ sources) :
    ∃ tree, Fragment.parse raw = .ok tree ∧ (name, tree) ∈ exporters := by
  obtain ⟨⟨exporterName, tree⟩, hexporter, hname, hparse⟩ := related_of_mem h hmem
  obtain rfl : exporterName = name := hname
  exact ⟨tree, hparse, hexporter⟩

namespace Assembly.Views

variable {sources : Sources} {assembly : Assembly}

theorem empty : Views [] {} := ⟨rfl, .nil⟩

/-- One more exporter keeps the views in step. -/
theorem add (v : Views sources assembly) {name raw : String} {tree : Tree}
    (h : Fragment.parse raw = .ok tree) :
    Views ((name, raw) :: sources) (assembly.add name tree) :=
  ⟨congrArg (name :: ·) v.names, .cons ⟨rfl, h⟩ v.exporters⟩

/-- Where names differ, the tree of an exporter is that of its own fragment. -/
theorem get? (v : Views sources assembly) (distinct : (Entries.keys sources).Nodup)
    {name raw : String} (h : (name, raw) ∈ sources) :
    ∃ tree, Fragment.parse raw = .ok tree ∧ assembly.get? name = some tree := by
  obtain ⟨tree, hparse, hmem⟩ := exporter_of_mem v.exporters h
  refine ⟨tree, hparse, Entries.find?_of_mem ?_ hmem⟩
  rw [keys_exporters v.exporters]
  exact distinct

end Assembly.Views

theorem parseAll_cons_of_error {name raw : String} {rest : Sources} {cause : SyntaxError}
    (h : Fragment.parse raw = .error cause) :
    (parseAll ((name, raw) :: rest)).value = .error (.invalidYaml name cause) := by
  rw [parseAll, h]
  rfl

theorem parseAll_cons_of_ok {name raw : String} {rest : Sources} {tree : Tree}
    (h : Fragment.parse raw = .ok tree) :
    (parseAll ((name, raw) :: rest)).value = (parseAll rest).value.map (.add name tree) := by
  rw [parseAll, h]
  rfl

/-- Well-formed fragments give both views of all sources. -/
theorem parseAll_of_ok {sources : Sources}
    (h : ∀ source ∈ sources, ∃ tree, Fragment.parse source.2 = .ok tree) :
    ∃ assembly, (parseAll sources).value = .ok assembly ∧ assembly.Views sources := by
  induction sources with
  | nil => exact ⟨{}, rfl, .empty⟩
  | cons source rest ih =>
    obtain ⟨name, raw⟩ := source
    obtain ⟨tree, htree⟩ := h (name, raw) List.mem_cons_self
    obtain ⟨assembly, hvalue, hviews⟩ := ih fun s hs => h s (List.mem_cons_of_mem _ hs)
    refine ⟨assembly.add name tree, ?_, hviews.add htree⟩
    rw [parseAll_cons_of_ok htree, hvalue]
    rfl

/-- One malformed fragment fails all, and the failure names a source beside its own fault. -/
theorem parseAll_of_error {sources : Sources}
    (h : ¬ ∀ source ∈ sources, ∃ tree, Fragment.parse source.2 = .ok tree) :
    ∃ name raw cause, (name, raw) ∈ sources ∧ Fragment.parse raw = .error cause ∧
      (parseAll sources).value = .error (.invalidYaml name cause) := by
  induction sources with
  | nil => exact absurd (fun _ hs => absurd hs (by simp)) h
  | cons source rest ih =>
    obtain ⟨name, raw⟩ := source
    cases hparse : Fragment.parse raw with
    | error cause =>
      exact ⟨name, raw, cause, List.mem_cons_self, hparse, parseAll_cons_of_error hparse⟩
    | ok tree =>
      have hrest : ¬ ∀ source ∈ rest, ∃ tree, Fragment.parse source.2 = .ok tree := by
        intro hall
        refine h fun s hs => ?_
        rcases List.mem_cons.mp hs with rfl | hs
        · exact ⟨tree, hparse⟩
        · exact hall s hs
      obtain ⟨badName, badRaw, cause, hmem, hbad, hvalue⟩ := ih hrest
      refine ⟨badName, badRaw, cause, List.mem_cons_of_mem _ hmem, hbad, ?_⟩
      rw [parseAll_cons_of_ok hparse, hvalue]
      rfl

/-! ### Assembly -/

section

variable (reserved : ReservedNames) (ambient : Option String) (sources : Sources)

/-- The answer of assembly without its trace. -/
theorem assemble_value :
    (assemble reserved ambient sources).value =
      match sources.find? fun source => reserved.contains source.1 with
      | some (name, _) => .error (.reservedName name)
      | none => (parseAll sources).value := by
  rw [assemble]
  cases sources.find? fun source => reserved.contains source.1 with
  | some source => rfl
  | none =>
    simp only [Traced.value_bind]
    cases (parseAll sources).value <;> rfl

/-- A reserved name is told before any fragment is looked at. -/
theorem assemble_of_reserved (h : ∃ name ∈ Entries.keys sources, name ∈ reserved.names) :
    ∃ name ∈ Entries.keys sources, name ∈ reserved.names ∧
      (assemble reserved ambient sources).value = .error (.reservedName name) := by
  rw [assemble_value]
  cases hfind : sources.find? fun source => reserved.contains source.1 with
  | some source =>
    refine ⟨source.1, List.mem_map_of_mem (List.mem_of_find?_eq_some hfind), ?_, rfl⟩
    have hcontains := List.find?_some hfind
    exact ReservedNames.contains_iff.mp (by simpa using hcontains)
  | none =>
    obtain ⟨name, hname, hreserved⟩ := h
    obtain ⟨source, hsource, rfl⟩ := List.mem_map.mp hname
    exact absurd (ReservedNames.contains_iff.mpr hreserved)
      (List.find?_eq_none.mp hfind source hsource)

theorem assemble_of_not_reserved (h : ∀ name ∈ Entries.keys sources, name ∉ reserved.names) :
    (assemble reserved ambient sources).value = (parseAll sources).value := by
  have hfind : (sources.find? fun source => reserved.contains source.1) = none := by
    refine List.find?_eq_none.mpr fun source hsource hcontains => ?_
    exact h source.1 (List.mem_map_of_mem hsource) (ReservedNames.contains_iff.mp hcontains)
  rw [assemble_value, hfind]

/-- Where no name is reserved and every fragment is well-formed, both views hold all sources. -/
theorem assemble_of_sound (hnames : ∀ name ∈ Entries.keys sources, name ∉ reserved.names)
    (hparse : ∀ source ∈ sources, ∃ tree, Fragment.parse source.2 = .ok tree) :
    ∃ assembly, (assemble reserved ambient sources).value = .ok assembly ∧
      assembly.Views sources := by
  rw [assemble_of_not_reserved reserved ambient sources hnames]
  exact parseAll_of_ok hparse

/-- Where no name is reserved, a malformed fragment is told with its own name and fault. -/
theorem assemble_of_malformed (hnames : ∀ name ∈ Entries.keys sources, name ∉ reserved.names)
    (hparse : ¬ ∀ source ∈ sources, ∃ tree, Fragment.parse source.2 = .ok tree) :
    ∃ name raw cause, (name, raw) ∈ sources ∧ Fragment.parse raw = .error cause ∧
      (assemble reserved ambient sources).value = .error (.invalidYaml name cause) := by
  rw [assemble_of_not_reserved reserved ambient sources hnames]
  exact parseAll_of_error hparse

theorem assemble_ok_iff :
    (∃ assembly, (assemble reserved ambient sources).value = .ok assembly) ↔
      (∀ name ∈ Entries.keys sources, name ∉ reserved.names) ∧
        ∀ source ∈ sources, ∃ tree, Fragment.parse source.2 = .ok tree := by
  constructor
  · rintro ⟨assembly, hvalue⟩
    have hnames : ∀ name ∈ Entries.keys sources, name ∉ reserved.names := by
      by_contra hreserved
      push Not at hreserved
      obtain ⟨name, -, -, herror⟩ := assemble_of_reserved reserved ambient sources hreserved
      exact absurd (herror.symm.trans hvalue) (by simp)
    refine ⟨hnames, ?_⟩
    by_contra hparse
    obtain ⟨_, _, _, -, -, herror⟩ := assemble_of_malformed reserved ambient sources hnames hparse
    exact absurd (herror.symm.trans hvalue) (by simp)
  · rintro ⟨hnames, hparse⟩
    obtain ⟨assembly, hvalue, -⟩ := assemble_of_sound reserved ambient sources hnames hparse
    exact ⟨assembly, hvalue⟩

/-- What is assembled is in step with the sources. -/
theorem views_of_assemble {assembly : Assembly}
    (h : (assemble reserved ambient sources).value = .ok assembly) : assembly.Views sources := by
  obtain ⟨hnames, hparse⟩ := (assemble_ok_iff reserved ambient sources).mp ⟨assembly, h⟩
  obtain ⟨_, hvalue, hviews⟩ := assemble_of_sound reserved ambient sources hnames hparse
  obtain rfl := Except.ok.inj (h.symm.trans hvalue)
  exact hviews

/-- Assembly succeeds iff no name is reserved and every fragment is well-formed.  Then the names are
those of the sources, once each, and every name has the tree of its own fragment.  Otherwise a
reserved name is told if there is one, whatever the fragments hold, and else a malformed entry with
the fault of its own fragment. -/
theorem assemble_characterised (distinct : (Entries.keys sources).Nodup) :
    ((∃ assembly, (assemble reserved ambient sources).value = .ok assembly) ↔
      (∀ name ∈ Entries.keys sources, name ∉ reserved.names) ∧
        ∀ source ∈ sources, ∃ tree, Fragment.parse source.2 = .ok tree) ∧
    (∀ assembly, (assemble reserved ambient sources).value = .ok assembly →
      assembly.names.Nodup ∧ assembly.names.Perm (Entries.keys sources) ∧
      (Entries.keys assembly.exporters).Nodup ∧
      (∀ name, name ∈ Entries.keys assembly.exporters ↔ name ∈ Entries.keys sources) ∧
      ∀ name raw, (name, raw) ∈ sources →
        ∃ tree, Fragment.parse raw = .ok tree ∧ assembly.get? name = some tree) ∧
    (∀ e, (assemble reserved ambient sources).value = .error e →
      ((∃ name ∈ Entries.keys sources, name ∈ reserved.names) →
        ∃ name ∈ Entries.keys sources, name ∈ reserved.names ∧ e = .reservedName name) ∧
      ((∀ name ∈ Entries.keys sources, name ∉ reserved.names) →
        ∃ name raw cause, (name, raw) ∈ sources ∧ Fragment.parse raw = .error cause ∧
          e = .invalidYaml name cause)) := by
  refine ⟨assemble_ok_iff reserved ambient sources, ?_, fun e he => ⟨?_, ?_⟩⟩
  · -- Sound entries have views, and these are what was assembled.
    intro assembly hassembly
    obtain ⟨hnames, hparse⟩ :=
      (assemble_ok_iff reserved ambient sources).mp ⟨assembly, hassembly⟩
    obtain ⟨_, hvalue, hviews⟩ := assemble_of_sound reserved ambient sources hnames hparse
    obtain rfl := Except.ok.inj (hassembly.symm.trans hvalue)
    rw [hviews.names, keys_exporters hviews.exporters]
    exact ⟨distinct, .refl _, distinct, fun _ => Iff.rfl, fun _ _ h => hviews.get? distinct h⟩
  · intro hreserved
    obtain ⟨name, hname, hmem, hvalue⟩ := assemble_of_reserved reserved ambient sources hreserved
    exact ⟨name, hname, hmem, Except.error.inj (he.symm.trans hvalue)⟩
  · intro hnames
    have hparse : ¬ ∀ source ∈ sources, ∃ tree, Fragment.parse source.2 = .ok tree := by
      intro hparse
      obtain ⟨_, hvalue⟩ := (assemble_ok_iff reserved ambient sources).mpr ⟨hnames, hparse⟩
      exact absurd (he.symm.trans hvalue) (by simp)
    obtain ⟨name, raw, cause, hmem, hbad, hvalue⟩ :=
      assemble_of_malformed reserved ambient sources hnames hparse
    exact ⟨name, raw, cause, hmem, hbad, Except.error.inj (he.symm.trans hvalue)⟩

end

/-- A reserved name wins over a malformed fragment. -/
theorem assemble_reserved_beside_malformed :
    (Entries.keys [("broken", "key: [unclosed"), ("prometheus", "a: 1")]).Nodup ∧
      (assemble .system none [("broken", "key: [unclosed"), ("prometheus", "a: 1")]).value =
        .error (.reservedName "prometheus") := by
  have distinct : (Entries.keys [("broken", "key: [unclosed"), ("prometheus", "a: 1")]).Nodup := by
    decide
  have hreserved : ∃ name ∈ Entries.keys [("broken", "key: [unclosed"), ("prometheus", "a: 1")],
      name ∈ ReservedNames.system.names := by
    decide
  obtain ⟨hok, -, herror⟩ := assemble_characterised .system none _ distinct
  refine ⟨distinct, ?_⟩
  cases hvalue :
    (assemble .system none [("broken", "key: [unclosed"), ("prometheus", "a: 1")]).value with
  | ok assembly => exact absurd (hok.mp ⟨assembly, hvalue⟩).1 (by decide)
  | error e =>
    obtain ⟨name, -, hname, rfl⟩ := (herror e hvalue).1 hreserved
    obtain rfl : name = "prometheus" := by simpa [ReservedNames.system] using hname
    rfl

/-! ### Diagnosis -/

section

variable (reserved : ReservedNames) (ambient : Option String) (sources : Sources)

/-- What is wrong with an entry: its name is reserved, or else its fragment is malformed. -/
theorem problem?_eq_some_iff (name raw : String) (e : Error) :
    problem? reserved (name, raw) = some e ↔
      (name ∈ reserved.names ∧ e = .reservedName name) ∨
      (name ∉ reserved.names ∧
        ∃ cause, Fragment.parse raw = .error cause ∧ e = .invalidYaml name cause) := by
  rw [problem?, ReservedNames.check]
  by_cases hname : name ∈ reserved.names
  · rw [if_pos (ReservedNames.contains_iff.mpr hname)]
    simp [hname, eq_comm]
  · rw [if_neg (fun h => hname (ReservedNames.contains_iff.mp h))]
    cases Fragment.parse raw <;> simp [hname, eq_comm]

theorem problem?_eq_none_iff (name raw : String) :
    problem? reserved (name, raw) = none ↔
      name ∉ reserved.names ∧ ∃ tree, Fragment.parse raw = .ok tree := by
  rw [problem?, ReservedNames.check]
  by_cases hname : name ∈ reserved.names
  · rw [if_pos (ReservedNames.contains_iff.mpr hname)]
    simp [hname]
  · rw [if_neg (fun h => hname (ReservedNames.contains_iff.mp h))]
    cases Fragment.parse raw <;> simp [hname]

/-- A problem names the entry it is about. -/
theorem exporter?_of_problem? {source : String × String} {e : Error}
    (h : problem? reserved source = some e) : e.exporter? = some source.1 := by
  obtain ⟨name, raw⟩ := source
  rcases (problem?_eq_some_iff reserved name raw e).mp h with ⟨-, rfl⟩ | ⟨-, cause, -, rfl⟩
  · rfl
  · rfl

theorem mem_diagnose_iff (e : Error) :
    e ∈ (diagnose reserved ambient sources).value ↔
      ∃ source ∈ sources, problem? reserved source = some e := by
  show e ∈ (sources.mergeSort fun a b => a.1 ≤ b.1).filterMap (problem? reserved) ↔ _
  simp only [List.mem_filterMap, List.mem_mergeSort]

theorem exporters_filterMap_problem? (entries : Sources) :
    (entries.filterMap (problem? reserved)).map Error.exporter? =
      (entries.filter fun source => (problem? reserved source).isSome).map (some ·.1) := by
  induction entries with
  | nil => rfl
  | cons source rest ih =>
    cases h : problem? reserved source with
    | none =>
      rw [List.filterMap_cons_none h, List.filter_cons_of_neg (by simp [h])]
      exact ih
    | some e =>
      rw [List.filterMap_cons_some h, List.filter_cons_of_pos (by simp [h]), List.map_cons,
        List.map_cons, exporter?_of_problem? reserved h, ih]

/-- The names of the problems, which strictly increase. -/
theorem exporters_diagnose (distinct : (Entries.keys sources).Nodup) :
    ∃ names : List String,
      (diagnose reserved ambient sources).value.map Error.exporter? = names.map some ∧
      names.Pairwise (· < ·) ∧
      ∀ name, name ∈ names ↔
        ∃ raw, (name, raw) ∈ sources ∧ (problem? reserved (name, raw)).isSome := by
  -- The entries with problems keep the order of the sorted sources.
  refine ⟨Entries.keys ((sources.mergeSort fun a b => a.1 ≤ b.1).filter
    fun source => (problem? reserved source).isSome), ?_, ?_, ?_⟩
  · rw [Entries.keys, List.map_map]
    exact exporters_filterMap_problem? reserved _
  · exact (Entries.pairwise_mergeSort Prod.fst distinct).sublist (List.filter_sublist.map _)
  · intro name
    simp only [Entries.keys, List.mem_map, List.mem_filter, List.mem_mergeSort, Prod.exists,
      exists_and_right, exists_eq_right]

/-- Nothing is told iff nothing is wrong with any entry. -/
theorem diagnose_eq_nil_iff :
    (diagnose reserved ambient sources).value = [] ↔
      (∀ name ∈ Entries.keys sources, name ∉ reserved.names) ∧
        ∀ source ∈ sources, ∃ tree, Fragment.parse source.2 = .ok tree := by
  have hnone : (diagnose reserved ambient sources).value = [] ↔
      ∀ source ∈ sources, problem? reserved source = none := by
    show (sources.mergeSort fun a b => a.1 ≤ b.1).filterMap (problem? reserved) = [] ↔ _
    simp only [List.filterMap_eq_nil_iff, List.mem_mergeSort]
  rw [hnone]
  constructor
  · intro h
    refine ⟨fun name hname => ?_, fun source hsource => ?_⟩
    · obtain ⟨⟨_, raw⟩, hsource, rfl⟩ := List.mem_map.mp hname
      exact ((problem?_eq_none_iff reserved _ raw).mp (h _ hsource)).1
    · exact ((problem?_eq_none_iff reserved source.1 source.2).mp (h source hsource)).2
  · rintro ⟨hnames, hparse⟩ source hsource
    exact (problem?_eq_none_iff reserved source.1 source.2).mpr
      ⟨hnames _ (List.mem_map_of_mem hsource), hparse source hsource⟩

/-- The failure of assembly is one of the problems told, whatever the order in which the map gives
its entries, and a reserved name if the problems have one. -/
theorem assemble_error_mem_diagnose {ambient' : Option String} {entries : Sources}
    (order : entries.Perm sources) {e : Error}
    (h : (assemble reserved ambient' entries).value = .error e) :
    e ∈ (diagnose reserved ambient sources).value ∧
      ((∃ problem ∈ (diagnose reserved ambient sources).value,
        ∃ name, problem = .reservedName name) → ∃ name, e = .reservedName name) := by
  by_cases hnames : ∀ name ∈ Entries.keys entries, name ∉ reserved.names
  · by_cases hparse : ∀ source ∈ entries, ∃ tree, Fragment.parse source.2 = .ok tree
    · obtain ⟨assembly, hvalue, -⟩ := assemble_of_sound reserved ambient' entries hnames hparse
      exact absurd (hvalue.symm.trans h) (by simp)
    · obtain ⟨name, raw, cause, hmem, hbad, hvalue⟩ :=
        assemble_of_malformed reserved ambient' entries hnames hparse
      obtain rfl : e = .invalidYaml name cause := Except.error.inj (h.symm.trans hvalue)
      have hname : name ∉ reserved.names := hnames name (List.mem_map_of_mem hmem)
      refine ⟨?_, ?_⟩
      · refine (mem_diagnose_iff reserved ambient sources _).mpr
          ⟨(name, raw), order.mem_iff.mp hmem, ?_⟩
        exact (problem?_eq_some_iff reserved name raw _).mpr (.inr ⟨hname, cause, hbad, rfl⟩)
      · -- No problem is a reserved name, since no entry has one.
        rintro ⟨problem, hproblem, other, rfl⟩
        obtain ⟨⟨n, r⟩, hsource, hn⟩ := (mem_diagnose_iff reserved ambient sources _).mp hproblem
        rcases (problem?_eq_some_iff reserved n r _).mp hn with ⟨hreserved, -⟩ | ⟨-, _, -, heq⟩
        · exact absurd hreserved
            (hnames n (List.mem_map_of_mem (order.mem_iff.mpr hsource)))
        · exact absurd heq (by simp)
  · -- A reserved name is told at once, and diagnosis tells it for the same entry.
    push Not at hnames
    obtain ⟨name, hname, hreserved, hvalue⟩ := assemble_of_reserved reserved ambient' entries hnames
    obtain rfl : e = .reservedName name := Except.error.inj (h.symm.trans hvalue)
    refine ⟨?_, fun _ => ⟨name, rfl⟩⟩
    obtain ⟨⟨_, raw⟩, hmem, rfl⟩ := List.mem_map.mp hname
    refine (mem_diagnose_iff reserved ambient sources _).mpr ⟨_, order.mem_iff.mp hmem, ?_⟩
    exact (problem?_eq_some_iff reserved _ raw _).mpr (.inl ⟨hreserved, rfl⟩)

/-- The problems told are those of the entries whose name is reserved or whose fragment is
malformed, once each and in the order of names; a reserved name hides what its fragment holds.  None
is told iff assembly of the same map succeeds, in whatever order the map gives its entries, and the
failure of assembly is one of them, a reserved name if there is one. -/
theorem diagnose_characterised (ambient' : Option String) {entries : Sources}
    (order : entries.Perm sources) (distinct : (Entries.keys sources).Nodup) :
    (∀ e, e ∈ (diagnose reserved ambient sources).value ↔
      ∃ name raw, (name, raw) ∈ sources ∧
        ((name ∈ reserved.names ∧ e = .reservedName name) ∨
          (name ∉ reserved.names ∧
            ∃ cause, Fragment.parse raw = .error cause ∧ e = .invalidYaml name cause))) ∧
    (∃ names : List String,
      (diagnose reserved ambient sources).value.map Error.exporter? = names.map some ∧
      names.Pairwise (· < ·) ∧
      ∀ name, name ∈ names ↔ ∃ raw, (name, raw) ∈ sources ∧
        (name ∈ reserved.names ∨ ∃ cause, Fragment.parse raw = .error cause)) ∧
    ((diagnose reserved ambient sources).value = [] ↔
      ∃ assembly, (assemble reserved ambient' entries).value = .ok assembly) ∧
    (∀ e, (assemble reserved ambient' entries).value = .error e →
      e ∈ (diagnose reserved ambient sources).value ∧
      ((∃ problem ∈ (diagnose reserved ambient sources).value,
        ∃ name, problem = .reservedName name) → ∃ name, e = .reservedName name)) := by
  refine ⟨fun e => ?_, ?_, ?_, fun e he => ?_⟩
  · rw [mem_diagnose_iff]
    simp only [Prod.exists, problem?_eq_some_iff]
  · obtain ⟨names, hmap, hsorted, hnames⟩ := exporters_diagnose reserved ambient sources distinct
    refine ⟨names, hmap, hsorted, fun name => ?_⟩
    rw [hnames]
    refine exists_congr fun raw => and_congr_right fun _ => ?_
    rw [Option.isSome_iff_ne_none, Ne, problem?_eq_none_iff, not_and_or, not_not]
    cases Fragment.parse raw <;> simp
  · rw [diagnose_eq_nil_iff, assemble_ok_iff]
    have hkeys : (Entries.keys entries).Perm (Entries.keys sources) := order.map Prod.fst
    simp only [hkeys.mem_iff, order.mem_iff]
  · exact assemble_error_mem_diagnose reserved ambient sources order he

end

/-- A reserved name is told although its fragment is malformed, and then assembly fails. -/
theorem diagnose_reserved_and_malformed :
    [("prometheus", "]"), ("debug", "a: 1")].Perm [("debug", "a: 1"), ("prometheus", "]")] ∧
      (Entries.keys [("debug", "a: 1"), ("prometheus", "]")]).Nodup ∧
      Error.reservedName "prometheus" ∈
        (diagnose .system none [("debug", "a: 1"), ("prometheus", "]")]).value ∧
      ¬ ∃ assembly,
        (assemble .system none [("prometheus", "]"), ("debug", "a: 1")]).value = .ok assembly := by
  have order : [("prometheus", "]"), ("debug", "a: 1")].Perm
      [("debug", "a: 1"), ("prometheus", "]")] := .swap _ _ _
  have distinct : (Entries.keys [("debug", "a: 1"), ("prometheus", "]")]).Nodup := by decide
  obtain ⟨hmem, -, hnil, -⟩ := diagnose_characterised .system none _ none order distinct
  have hproblem := (hmem (.reservedName "prometheus")).mpr
    ⟨"prometheus", "]", by decide, .inl ⟨by decide, rfl⟩⟩
  refine ⟨order, distinct, hproblem, fun hok => ?_⟩
  exact absurd hproblem (by rw [hnil.mpr hok]; exact List.not_mem_nil)

end CollectorTemplate
