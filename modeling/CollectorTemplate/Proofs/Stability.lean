/-
The order of rendered data.

The exporters of a resource, the keys of template data and the exporters among them come from maps
without order.  Rendering sorts them at every level but one: the names of the exporters are listed
as the map gives them.  So two runs print the same texts, but for the order in which these names are
listed.

* `TemplateData.Same` : data in another order, which have the same tree;
* `NameList.Reordered` : texts that list the same names in two orders, and are equal around them;
* `build_stable` : what is built from a resource, and from the same resource in another order.
-/
import CollectorTemplate.Proofs.Fallback
import CollectorTemplate.Proofs.Json.Data

namespace CollectorTemplate

/-! ### Data in another order -/

theorem TemplateValue.Same.tree {value value' : TemplateValue} (h : value.Same value')
    (hvalid : value.Valid) : value.tree = value'.tree := by
  cases h with
  | refl => rfl
  | exporters order => exact congrArg Tree.mapping (Entries.ofList_perm order hvalid.1)

namespace TemplateData

/-- Data with the same entries, which may come in any order, as may the exporters of each. -/
def Same (d e : TemplateData) : Prop :=
  ∃ entries, d.entries.Perm entries ∧
    List.Forall₂ (fun a b => a.1 = b.1 ∧ a.2.Same b.2) entries e.entries

variable {d e : TemplateData}

theorem Same.refl (d : TemplateData) : d.Same d :=
  ⟨d.entries, .refl _, List.forall₂_same.mpr fun entry _ => ⟨rfl, .refl entry.2⟩⟩

/-- The tree of data does not depend on their order. -/
theorem Same.tree (h : d.Same e) (hvalid : d.Valid) : d.tree = e.tree := by
  obtain ⟨entries, order, hsame⟩ := h
  have htrees : entries.map (fun entry => (entry.1, entry.2.tree)) =
      e.entries.map fun entry => (entry.1, entry.2.tree) :=
    map_eq_of_forall₂ hsame fun entry hentry _ h =>
      Prod.ext h.1 (h.2.tree (hvalid.values entry (order.mem_iff.mpr hentry)))
  have hdistinct := d.keys_trees ▸ hvalid.distinct
  rw [TemplateData.tree, Tree.ofEntries, Entries.ofList_perm (order.map _) hdistinct, htrees]
  rfl

/-- The names of the exporters are a list, which keeps its order. -/
theorem Same.exporterNames? (h : d.Same e) (hvalid : d.Valid) {names : List String}
    (hnames : (exporterNamesKey, .list names) ∈ d.entries) : e.exporterNames? = some names := by
  obtain ⟨entries, order, hsame⟩ := h
  have hkeys : Entries.keys entries = Entries.keys e.entries :=
    map_eq_of_forall₂ hsame fun _ _ _ h => h.1
  have hdistinct : (Entries.keys e.entries).Nodup :=
    hkeys ▸ (order.map Prod.fst).nodup_iff.mp hvalid.distinct
  obtain ⟨⟨key, value⟩, hmem, hkey, hvalue⟩ :=
    related_of_mem hsame (order.mem_iff.mp hnames)
  obtain rfl : exporterNamesKey = key := hkey
  cases hvalue with
  | refl => rw [TemplateData.exporterNames?, get?, Entries.find?_of_mem hdistinct hmem]; rfl

end TemplateData

/-! ### Texts with names in them -/

/-- How a format lists the names of exporters: behind a heading, each name with a text of its
own. -/
structure NameList where
  heading : List Char
  between : List Char
  item : String → List Char

namespace NameList

/-- The names in JSON, each on a line of its own. -/
def json : NameList where
  heading := Json.newline 1 ++ Json.quote TemplateData.exporterNamesKey ++ [':', ' ', '[']
  between := [',']
  item name := Json.newline 2 ++ Json.quote name

/-- The names in YAML, each on lines of its own. -/
def yaml : NameList where
  heading := TemplateData.exporterNamesKey.toList ++ [':', '\n']
  between := []
  item name := '-' :: ' ' :: Yaml.Scalar.lines Yaml.Scalar.indentation name.toList

/-- The names behind their heading. -/
def text (l : NameList) (names : List String) : List Char :=
  l.heading ++ l.between.intercalate (names.map l.item)

/-- Two texts that list the same names, each in an order of its own, and are equal before and behind
the names.  They are equal if there are no two names. -/
structure Reordered (l : NameList) (names names' : List String) (text text' : String) : Prop where
  perm : names.Perm names'
  eq_of_short : names.length < 2 → text = text'
  around : names ≠ [] → ∃ before behind, text.toList = before ++ l.text names ++ behind ∧
    text'.toList = before ++ l.text names' ++ behind

/-- What is written for the list of names, among other entries. -/
def entry (names : List String) : String × Tree :=
  (TemplateData.exporterNamesKey, .sequence (names.map .string))

/-- A format lists the names in this way wherever they stand, and all else does not depend on
them. -/
def Lists (l : NameList) (render : Tree → String) : Prop :=
  ∀ front back : List (String × Tree), ∃ before behind, ∀ names, names ≠ [] →
    (render (.mapping (front ++ entry names :: back))).toList = before ++ l.text names ++ behind

variable {l : NameList} {render : Tree → String} {names names' : List String}

theorem Lists.reordered (h : l.Lists render) (front back : List (String × Tree))
    (hperm : names.Perm names') :
    l.Reordered names names' (render (.mapping (front ++ entry names :: back)))
      (render (.mapping (front ++ entry names' :: back))) where
  perm := hperm
  eq_of_short hshort := by
    obtain rfl : names = names' := by
      match names, hshort with
      | [], _ => exact (List.nil_perm.mp hperm).symm
      | [name], _ => exact List.singleton_perm.mp hperm
    rfl
  around hne := by
    obtain ⟨before, behind, htext⟩ := h front back
    have hne' : names' ≠ [] := fun hnil => hne (List.perm_nil.mp (hnil ▸ hperm))
    exact ⟨before, behind, htext names hne, htext names' hne'⟩

end NameList

/-! ### JSON -/

namespace Json

theorem prettyItems_eq (level : Nat) (items : List Tree) :
    prettyItems level items =
      [','].intercalate (items.map fun item => newline level ++ prettyAt level item) := by
  induction items with
  | nil => rfl
  | cons item items ih =>
    cases items with
    | nil => simp [prettyItems]
    | cons next items =>
      rw [prettyItems, ih]
      · simp
      · nofun

/-- The other entries of a mapping have the same text, whatever one of them holds. -/
theorem prettyEntries_around (level : Nat) (key : String) (front back : List (String × Tree)) :
    ∃ before behind, ∀ value, prettyEntries level (front ++ (key, value) :: back) =
      before ++ (newline level ++ quote key ++ ':' :: ' ' :: prettyAt level value) ++ behind := by
  induction front with
  | nil =>
    cases back with
    | nil => exact ⟨[], [], fun value => by simp [prettyEntries]⟩
    | cons next back =>
      exact ⟨[], ',' :: prettyEntries level (next :: back), fun value => by simp [prettyEntries]⟩
  | cons entry front ih =>
    obtain ⟨k, v⟩ := entry
    obtain ⟨before, behind, h⟩ := ih
    refine ⟨newline level ++ quote k ++ ':' :: ' ' :: prettyAt level v ++ ',' :: before, behind,
      fun value => ?_⟩
    rw [List.cons_append, prettyEntries, h]
    · simp
    · simp

theorem lists_names : NameList.json.Lists pretty := by
  intro front back
  obtain ⟨before, behind, h⟩ :=
    prettyEntries_around 1 TemplateData.exporterNamesKey front back
  refine ⟨'{' :: before, newline 1 ++ [']'] ++ behind ++ newline 0 ++ ['}'], fun names hne => ?_⟩
  obtain ⟨name, names, rfl⟩ := List.exists_cons_of_ne_nil hne
  have hitems : prettyItems 2 ((name :: names).map .string) =
      [','].intercalate ((name :: names).map NameList.json.item) := by
    rw [prettyItems_eq, List.map_map]
    rfl
  have hlist : prettyAt 1 (.sequence ((name :: names).map .string)) =
      '[' :: [','].intercalate ((name :: names).map NameList.json.item) ++ newline 1 ++ [']'] := by
    rw [← hitems]
    rfl
  have hentries := h (.sequence ((name :: names).map .string))
  have hmapping : prettyAt 0 (.mapping (front ++ NameList.entry (name :: names) :: back)) =
      '{' :: prettyEntries 1 (front ++ NameList.entry (name :: names) :: back) ++ newline 0 ++
        ['}'] := by
    cases front <;> rfl
  rw [pretty, String.toList_ofList, hmapping, NameList.entry, hentries, hlist, NameList.text,
    NameList.json]
  simp

end Json

/-! ### YAML -/

namespace Yaml

theorem itemLines_eq (items : List Tree) :
    itemLines 0 [] items = items.flatMap fun item => '-' :: nodeLines 0 .mark item := by
  induction items with
  | nil => rfl
  | cons item items ih =>
    rw [itemLines, show Scalar.spaces 0 = [] from rfl, ih]
    rfl

theorem entryLines_eq_flatMap (entries : List (String × Tree)) :
    entryLines 0 [] entries = entries.flatMap fun entry => Lexing.entryText 0 entry.1 entry.2 := by
  induction entries with
  | nil => rfl
  | cons entry entries ih =>
    rw [Lexing.entryLines_eq, show Scalar.spaces 0 = [] from rfl, ih]
    rfl

theorem intercalate_nil (texts : List (List Char)) : [].intercalate texts = texts.flatten := by
  induction texts with
  | nil => rfl
  | cons text texts ih =>
    cases texts with
    | nil => simp
    | cons next texts =>
      rw [List.intercalate_cons_cons, ih]
      simp

/-- The key of the names is written as it is, on one line with its colon. -/
theorem entryText_names {names : List String} (hne : names ≠ []) :
    Lexing.entryText 0 TemplateData.exporterNamesKey (.sequence (names.map .string)) =
      NameList.yaml.text names := by
  have hsimple : Scalar.isSimpleKey TemplateData.exporterNamesKey.toList = true := by
    decide +kernel
  have hplain : Scalar.styleOf TemplateData.exporterNamesKey.toList = .plain := by
    decide +kernel
  have hitems : itemLines 0 [] (names.map .string) = (names.map NameList.yaml.item).flatten := by
    rw [itemLines_eq, List.flatMap_map]
    rfl
  have hnode : nodeLines 0 .key (.sequence (names.map .string)) =
      '\n' :: itemLines 0 [] (names.map .string) := by
    obtain ⟨name, names, rfl⟩ := List.exists_cons_of_ne_nil hne
    rfl
  rw [Lexing.entryText, if_pos hsimple, hplain, hnode, hitems, NameList.text, NameList.yaml,
    intercalate_nil, List.append_assoc]
  rfl

theorem lists_names : NameList.yaml.Lists write := by
  intro front back
  refine ⟨entryLines 0 [] front, entryLines 0 [] back, fun names hne => ?_⟩
  have hwrite : (write (.mapping (front ++ NameList.entry names :: back))).toList =
      entryLines 0 [] (front ++ NameList.entry names :: back) := by
    cases front <;> exact String.toList_ofList
  rw [hwrite, entryLines_eq_flatMap, entryLines_eq_flatMap, entryLines_eq_flatMap,
    List.flatMap_append, List.flatMap_cons, NameList.entry, entryText_names hne, List.append_assoc]

end Yaml

/-! ### Builds in two orders -/

theorem Metrics.Valid.of_same {m m' : Metrics} (h : m.Valid) (hsame : m'.Same m) : m'.Valid where
  replicas := hsame.2.2.1 ▸ h.replicas
  exporters := (hsame.2.2.2.map Prod.fst).nodup_iff.mpr h.exporters

namespace Monitoring

variable {m m' : Monitoring}

/-- Metrics are switched off in both resources, or both collect the same. -/
theorem Same.metrics (h : m'.Same m) : m'.spec.metrics = none ∧ m.spec.metrics = none ∨
    ∃ metrics' metrics, m'.spec.metrics = some metrics' ∧ m.spec.metrics = some metrics ∧
      metrics'.Same metrics := by
  obtain ⟨-, -, -, -, hmetrics, -⟩ := h
  generalize m'.spec.metrics = metrics', m.spec.metrics = metrics at hmetrics
  cases hmetrics with
  | none => exact .inl ⟨rfl, rfl⟩
  | some hsame => exact .inr ⟨_, _, rfl, rfl, hsame⟩

theorem Valid.of_same (h : m.Valid) (hsame : m'.Same m) : m'.Valid := by
  intro found hfound
  rcases hsame.metrics with ⟨hnone, -⟩ | ⟨metrics', metrics, hmetrics', hmetrics, hsame⟩
  · rw [hnone] at hfound
    nomatch hfound
  · rw [hmetrics'] at hfound
    obtain rfl := Option.some.inj hfound
    exact (h metrics hmetrics).of_same hsame

/-- The exporters come in another order. -/
theorem Same.exporters (h : m'.Same m) :
    (m'.exporters?.getD []).Perm (m.exporters?.getD []) := by
  rcases h.metrics with ⟨hnone', hnone⟩ | ⟨metrics', metrics, hmetrics', hmetrics, hsame⟩
  · rw [exporters?, exporters?, hnone', hnone]
  · rw [exporters?, exporters?, hmetrics', hmetrics]
    exact hsame.2.2.2

/-- No key but those of the exporters depends on their order. -/
theorem Same.specKeys (h : m'.Same m) (d : Defaults) : specKeys d m'.spec = specKeys d m.spec := by
  obtain ⟨-, -, -, hspace, -, htraces⟩ := id h
  rw [CollectorTemplate.specKeys, CollectorTemplate.specKeys, hspace, htraces]
  rcases h.metrics with ⟨hnone', hnone⟩ | ⟨metrics', metrics, hmetrics', hmetrics, hsame⟩
  · rw [hnone', hnone]
  · obtain ⟨hstorage, hresources, hreplicas, -⟩ := hsame
    rw [hmetrics', hmetrics, Option.map_some, Option.map_some, metricsKeys, metricsKeys, hstorage,
      hresources, hreplicas]
    rfl

theorem Same.templateData (h : m'.Same m) (d : Defaults) (assembly : Assembly) :
    templateData d m'.spec assembly = templateData d m.spec assembly := by
  rw [CollectorTemplate.templateData, CollectorTemplate.templateData, h.specKeys]

end Monitoring

/-- The views of the same sources in another order hold the same exporters in another order. -/
theorem Assembly.Views.perm {sources sources' : Sources} {assembly assembly' : Assembly}
    (v : assembly.Views sources) (v' : assembly'.Views sources') (order : sources.Perm sources') :
    assembly.names.Perm assembly'.names ∧ assembly.exporters.Perm assembly'.exporters := by
  have hunique : Relator.RightUnique IsExporterOf := by
    rintro ⟨name, raw⟩ ⟨n, tree⟩ ⟨n', tree'⟩ ⟨hname, htree⟩ ⟨hname', htree'⟩
    exact Prod.ext (hname.trans hname'.symm) (Except.ok.inj (htree.symm.trans htree'))
  refine ⟨?_, List.rel_perm_imp hunique v.exporters v'.exporters order⟩
  rw [v.names, v'.names]
  exact order.map Prod.fst

section

variable {defaults : Defaults} {spec : MonitoringSpec} {exporters exporters' : List (String × Tree)}
  {names names' : List String}

/-- The names stand at one place of the tree, whatever they are. -/
theorem exists_templateData_tree (defaults : Defaults) (spec : MonitoringSpec)
    (exporters : List (String × Tree)) :
    ∃ front back, ∀ names, (templateData defaults spec ⟨exporters, names⟩).tree =
      .mapping (front ++ NameList.entry names :: back) := by
  let others := commonEntries spec ++ (Fallback.needed spec).map (Fallback.entry defaults spec) ++
    [(TemplateData.exportersKey, .exporters exporters)]
  obtain ⟨front, back, hinsert⟩ := Entries.exists_insert_eq TemplateData.exporterNamesKey
    (Entries.ofList (others.map fun entry => (entry.1, entry.2.tree)))
  refine ⟨front, back, fun names => ?_⟩
  have hentries : (templateData defaults spec ⟨exporters, names⟩).entries =
      others ++ [(TemplateData.exporterNamesKey, .list names)] := by
    rw [templateData_entries]
    exact (List.append_assoc _ [_] [_]).symm
  rw [TemplateData.tree, Tree.ofEntries, hentries, List.map_append, List.map_singleton,
    Entries.ofList_append, hinsert]
  rfl

theorem same_templateData (order : exporters.Perm exporters') :
    (templateData defaults spec ⟨exporters, names⟩).Same
      (templateData defaults spec ⟨exporters', names⟩) := by
  refine ⟨_, .refl _, ?_⟩
  rw [templateData_entries, templateData_entries]
  refine List.rel_append (List.forall₂_same.mpr fun entry _ => ⟨rfl, .refl entry.2⟩) ?_
  exact .cons ⟨rfl, .exporters order⟩ (.cons ⟨rfl, .refl _⟩ .nil)

/-- Data with the same exporters in two orders are rendered as texts that list their names in two
orders. -/
theorem templateData_reordered {l : NameList} {render : Tree → String} (hl : l.Lists render)
    (order : exporters.Perm exporters') (hnames : names.Perm names')
    (hvalid : ∀ names, (templateData defaults spec ⟨exporters, names⟩).Valid) :
    l.Reordered names names' (render (templateData defaults spec ⟨exporters, names⟩).tree)
      (render (templateData defaults spec ⟨exporters', names'⟩).tree) := by
  obtain ⟨front, back, htree⟩ := exists_templateData_tree defaults spec exporters
  rw [← (same_templateData order).tree (hvalid names'), htree, htree]
  exact hl.reordered front back hnames

end

/-- A build succeeds for all orders in which the exporters of a resource may come, or for none.
Whatever the orders of the exporters and of the maps in the data that are built, the rendered texts
list the names of the same exporters and are equal but for the order of these names, and are equal
throughout if there are fewer than two exporters. -/
theorem build_stable {b : Builder} (hdefaults : b.defaults.Valid) {resource resource' : Monitoring}
    (hresource : resource.Valid) (hsame : resource'.Same resource) (context : ReconcileContext)
    (cancelled : Bool) (ambient : Ambient) :
    ((∃ d, ((build b context cancelled resource).run ambient).value.1 = .ok d) ↔
      ∃ d', ((build b context cancelled resource').run ambient).value.1 = .ok d') ∧
    ∀ d d' e e', ((build b context cancelled resource).run ambient).value.1 = .ok d →
      ((build b context cancelled resource').run ambient).value.1 = .ok d' →
      d.Same e → d'.Same e' →
      ∃ names names', e.exporterNames? = some names ∧ e'.exporterNames? = some names' ∧
        names.length = (resource.exporters?.getD []).length ∧
        NameList.json.Reordered names names' e.toJson e'.toJson ∧
        NameList.yaml.Reordered names names' e.toYaml e'.toYaml := by
  have horder := hsame.exporters
  refine ⟨?_, fun d d' e e' hd hd' he he' => ?_⟩
  · rw [build_ok_iff, build_ok_iff]
    simp only [horder.mem_iff]
  have hvalid := build_valid hdefaults hresource hd
  have hvalid' := build_valid hdefaults (hresource.of_same hsame) hd'
  obtain ⟨assembly, hviews, rfl⟩ := build_eq_ok hd
  obtain ⟨assembly', hviews', rfl⟩ := build_eq_ok hd'
  obtain ⟨hnames, hexporters⟩ := hviews.perm hviews' horder.symm
  have hreordered {l : NameList} {render : Tree → String} (hl : l.Lists render) :
      l.Reordered assembly.names assembly'.names (render e.tree) (render e'.tree) := by
    rw [← he.tree hvalid, ← he'.tree hvalid', hsame.templateData]
    exact templateData_reordered hl hexporters hnames fun _ =>
      templateData_valid hdefaults hresource (hviews.valid hresource.distinct)
  refine ⟨assembly.names, assembly'.names, he.exporterNames? hvalid Entries.mem_put,
    he'.exporterNames? hvalid' Entries.mem_put, ?_, hreordered Json.lists_names,
    hreordered Yaml.lists_names⟩
  rw [hviews.names, Entries.keys, List.length_map]

/-- A resource with these exporters. -/
def Monitoring.ofExporters (exporters : Sources) : Monitoring :=
  { spec := { space := "ns", metrics := some { exporters } } }

/-- Two exporters that come the other way round, and the data of the one build with its entries the
other way round too. -/
theorem build_stable_of_swapped :
    Defaults.Valid {} ∧ (Monitoring.ofExporters [("a", "1"), ("b", "2")]).Valid ∧
      (Monitoring.ofExporters [("b", "2"), ("a", "1")]).Same
        (.ofExporters [("a", "1"), ("b", "2")]) ∧
      ∃ d d' e : TemplateData,
        ((build {} ⟨"ctx", 0⟩ false (.ofExporters [("a", "1"), ("b", "2")])).run {}).value.1 =
          .ok d ∧
        ((build {} ⟨"ctx", 0⟩ false (.ofExporters [("b", "2"), ("a", "1")])).run {}).value.1 =
          .ok d' ∧
        e.entries = d.entries.reverse ∧ d.Same e ∧
        NameList.json.Reordered ["a", "b"] ["b", "a"] e.toJson d'.toJson ∧
        NameList.yaml.Reordered ["a", "b"] ["b", "a"] e.toYaml d'.toYaml := by
  have hdefaults : Defaults.Valid {} := by unfold Defaults.Valid; decide
  have hvalid : (Monitoring.ofExporters [("a", "1"), ("b", "2")]).Valid := by
    intro metrics hmetrics
    obtain rfl := Option.some.inj hmetrics
    exact ⟨fun _ h => absurd h (Option.not_mem_none _), by decide⟩
  have hsame : (Monitoring.ofExporters [("b", "2"), ("a", "1")]).Same
      (.ofExporters [("a", "1"), ("b", "2")]) :=
    ⟨rfl, rfl, rfl, rfl, .some ⟨rfl, rfl, rfl, .swap _ _ _⟩, rfl⟩
  have hbuilt : ((build {} ⟨"ctx", 0⟩ false
      (.ofExporters [("a", "1"), ("b", "2")])).run {}).value.1.toOption.any
        (fun d => TemplateData.exporterNames? ⟨d.entries.reverse⟩ == some ["a", "b"]) = true := by
    decide +kernel
  have hbuilt' : ((build {} ⟨"ctx", 0⟩ false
      (.ofExporters [("b", "2"), ("a", "1")])).run {}).value.1.toOption.any
        (fun d => d.exporterNames? == some ["b", "a"]) = true := by
    decide +kernel
  obtain ⟨d, hd, hlisted⟩ := exists_of_any hbuilt
  obtain ⟨d', hd', hlisted'⟩ := exists_of_any hbuilt'
  have hreverse : d.Same ⟨d.entries.reverse⟩ :=
    ⟨_, (List.reverse_perm _).symm, List.forall₂_same.mpr fun entry _ => ⟨rfl, .refl entry.2⟩⟩
  obtain ⟨names, names', hnames, hnames', -, hjson, hyaml⟩ :=
    (build_stable hdefaults hvalid hsame ⟨"ctx", 0⟩ false {}).2 _ _ _ _ hd hd' hreverse (.refl d')
  obtain rfl := Option.some.inj (hnames.symm.trans (beq_iff_eq.mp hlisted))
  obtain rfl := Option.some.inj (hnames'.symm.trans (beq_iff_eq.mp hlisted'))
  exact ⟨hdefaults, hvalid, hsame, d, d', _, hd, hd', rfl, hreverse, hjson, hyaml⟩

end CollectorTemplate
