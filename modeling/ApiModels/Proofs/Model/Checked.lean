/-
ApiModels.Proofs.Model.Checked — why a run of a checked configuration fails.

A configuration is checked alone (`Config.validate`) and beside its document
(`Config.validateOperations`). What the checks ask for and what building
relies on are written down apart. They agree (`cause_of_checked`): of a
checked configuration that skips no check of a retrieve operation, no plugin
is unknown and no operation that building needs is missing. What can be
missing is the response of a retrieve operation, or the schema of an
offering; a link and a data source need neither. Besides, any definition
fails where a value cannot be read.

Nothing is asked of the document and of the types of the settings. Where they
are as expected, the values that cannot be read are those of a filter.
-/
import ApiModels.Proofs.Extract.Unreadable
import ApiModels.Proofs.Model.Escaping

namespace ApiModels

open ApiModels.Result (Reads FailsOnly failsOnly_ok failsOnly_error)

namespace Builder

variable {b : Builder} {r : ResourceSettings} {s : DataSourceSettings}

/-! ## The sides of a resource -/

/-- A part that a resource cannot do without is missing. -/
inductive Lacks (b : Builder) (r : ResourceSettings) : MissingPart → Prop where
  | operation {plugin} (hplugin : Plugin.ofValue r.plugin = .ok plugin) (hne : plugin ≠ .link)
      (h : b.document.has (ResourceSettings.derivedId r.baseOperationId "retrieve") = .ok false) :
      Lacks b r (.operation (ResourceSettings.derivedId r.baseOperationId "retrieve"))
  | response {plugin} (hplugin : Plugin.ofValue r.plugin = .ok plugin) (hne : plugin ≠ .link)
      (h : ¬ b.document.Returns (ResourceSettings.derivedId r.baseOperationId "retrieve")) :
      Lacks b r (.successResponse (ResourceSettings.derivedId r.baseOperationId "retrieve"))
  | offering {offering} (hplugin : Plugin.ofValue r.plugin = .ok .order)
      (hoffering : r.offeringType = .text offering)
      (h : ¬ b.document.Declares (offeringSchema offering)) :
      Lacks b r (.schema (.text (offeringSchema offering)))

/-- A resource fails because of a part that it lacks, or where a value cannot be read. -/
def LacksOrUnreadable (b : Builder) (r : ResourceSettings) (e : Failure) : Prop :=
  (∃ part, e = .missing part ∧ b.Lacks r part) ∨ e.Unreadable

theorem reads_requestFields (b : Builder) (id : Value) : Reads (b.requestFields id) := by
  unfold requestFields
  split
  · exact Extractor.reads_extract _ _
  · exact .ok _
  · rename_i e hno he
    rcases Document.requestSchema_missing _ _ e he with ⟨part, rfl⟩ | he
    · exact absurd rfl (hno part)
    · exact .fail he

theorem reads_addEach (makes : List (Value × (Scalar → Field))) :
    ∀ fields, Reads (addEach makes fields) := by
  induction makes with
  | nil => exact fun _ => .ok _
  | cons m rest ih =>
    obtain ⟨name, make⟩ := m
    intro fields
    refine Reads.bind ((Value.reads_key name).bind fun key => ?_) ih
    split <;> exact .ok _

theorem reads_addParameters (description : String) (params : List ParameterSettings)
    (fields : List Field) : Reads (addParameters description params fields) := by
  rw [addParameters_eq]
  exact reads_addEach _ _

theorem createFields_lacks {plugin : Plugin} (hplugin : Plugin.ofValue r.plugin = .ok plugin) :
    FailsOnly (b.LacksOrUnreadable r) (b.createFields r plugin) := by
  cases plugin with
  | standard =>
    refine FailsOnly.mono (fun _ => .inr) ((reads_requestFields b r.createId).bind fun fields => ?_)
    split
    · exact (Value.reads_told _).bind fun _ => .ok _
    · exact (Reads.ok "").bind fun _ => .ok _
  | order =>
    refine ((Value.reads_asText _).mono fun _ => .inr).bind fun offering hoffering => ?_
    refine FailsOnly.bind (fun e he => ?_) fun schema _ =>
      ((Extractor.reads_extract _ _).bind fun _ => Reads.ok _).mono fun _ => .inr
    refine (Document.schema_missing _ _ e he).imp_left ?_
    rintro ⟨rfl, hundeclared⟩
    have hname : r.offeringType = .text offering := by
      unfold Value.asText at hoffering
      split at hoffering <;> cases hoffering
      assumption
    exact ⟨_, rfl, .offering hplugin hname hundeclared⟩
  | link =>
    refine FailsOnly.mono (fun _ => .inr) ((reads_requestFields b r.linkOp).bind fun fields => ?_)
    rw [addEndpoints_eq]
    exact (reads_addEach _ _).bind fun _ => reads_addParameters _ _ _

theorem reads_updateFields (b : Builder) (r : ResourceSettings) (plugin : Plugin) :
    Reads (b.updateFields r plugin) := by
  cases plugin with
  | link => exact .ok _
  | standard | order => exact reads_requestFields b _

theorem responseFields_lacks {plugin : Plugin} (hplugin : Plugin.ofValue r.plugin = .ok plugin) :
    FailsOnly (b.LacksOrUnreadable r) (b.responseFields r plugin) := by
  have hmissing := Document.responseSchema_missing b.document
    (ResourceSettings.derivedId r.baseOperationId "retrieve")
  cases plugin with
  | link =>
    refine FailsOnly.mono (P := Failure.Unreadable) (fun _ => .inr) ?_
    simp only [responseFields]
    split
    · exact (Extractor.reads_extract _ _).bind fun _ => (Value.reads_keys _).bind fun _ =>
        Reads.ok _
    · exact failsOnly_ok _
    · rename_i e hno he
      rcases hmissing e he with ⟨rfl, -⟩ | ⟨rfl, -⟩ | he
      · exact absurd rfl (hno _)
      · exact absurd rfl (hno _)
      · exact failsOnly_error he
  | standard | order =>
    refine FailsOnly.bind (fun e he => ?_) fun schema _ =>
      (Extractor.reads_extract _ _).mono fun _ => .inr
    rcases hmissing e he with ⟨rfl, hno⟩ | ⟨rfl, hno⟩ | he
    · exact .inl ⟨_, rfl, .operation hplugin (by simp) hno⟩
    · exact .inl ⟨_, rfl, .response hplugin (by simp) hno⟩
    · exact .inr he

theorem reads_modelFields (r : ResourceSettings) (create response : List Field) (plugin : Plugin) :
    Reads (modelFields r create response plugin) := by
  cases plugin with
  | order => exact reads_addParameters _ _ _
  | standard | link => exact .ok _

theorem reads_operationIds (r : ResourceSettings) (plugin : Plugin) :
    Reads (operationIds r plugin) := by
  have hids : Reads r.operationIds := (Value.reads_told _).bind fun _ => .ok _
  cases plugin with
  | link => exact hids.bind fun _ => .ok _
  | standard | order => exact hids

/-! ## Actions and paths -/

theorem reads_pathOf? (b : Builder) (id : Value) : Reads (b.pathOf? id) :=
  (Document.reads_find? _ id).bind fun _ => .ok _

theorem reads_pathsOf (b : Builder) (ids : List (String × Value)) : Reads (b.pathsOf ids) := by
  induction ids with
  | nil => exact .ok _
  | cons p rest ih =>
    refine (reads_pathOf? b p.2).bind fun path => ih.bind fun others => ?_
    split <;> exact .ok _

theorem reads_actionPath (b : Builder) (id : Value) : Reads (b.actionPath id) :=
  (reads_pathOf? b id).bind fun _ => .ok _

theorem reads_resolveActions (b : Builder) (actions : List ActionSettings) :
    Reads (b.resolveActions actions) := by
  induction actions with
  | nil => exact .ok _
  | cons a rest ih => exact (reads_actionPath b _).bind fun _ => ih.bind fun _ => .ok _

theorem reads_standaloneActions (b : Builder) (base : Value) (actions : List Value) :
    Reads (b.standaloneActions base actions) := by
  induction actions with
  | nil => exact .ok _
  | cons a rest ih =>
    exact (Value.reads_told a).bind fun _ => (reads_actionPath b _).bind fun _ =>
      ih.bind fun _ => .ok _

theorem reads_pathParamNames (r : ResourceSettings) : Reads (pathParamNames r) := by
  unfold pathParamNames
  split
  · exact Value.reads_keys _
  · exact .ok _

theorem reads_addPathParams (params : Members) : ∀ paths, Reads (addPathParams paths params) := by
  induction params with
  | nil => exact fun _ => .ok _
  | cons p rest ih => exact fun paths => (Value.reads_told _).bind fun _ => ih _

theorem reads_createPaths (r : ResourceSettings) (paths : Members) :
    Reads (createPaths r paths) := by
  unfold createPaths
  split
  · split
    · exact reads_addPathParams _ _
    · exact .ok _
  · exact .ok _

theorem reads_apiPaths (b : Builder) (r : ResourceSettings) (plugin : Plugin) :
    Reads (b.apiPaths r plugin) := by
  cases plugin with
  | link => exact reads_pathsOf b _
  | standard | order => exact (reads_pathsOf b _).bind fun _ => reads_createPaths r _

/-! ## Definitions -/

theorem reads_requireSortable (fields : List Field) : Reads (Field.requireSortable fields) := by
  unfold Field.requireSortable
  split
  · exact .ok _
  · exact .wrongShape

theorem reads_requireDescribable (fields : List Field) :
    Reads (Field.requireDescribable fields) := by
  unfold Field.requireDescribable
  split
  · exact .ok _
  · exact .wrongShape

theorem reads_markExcluded (policy : Policy) (inputs : List Scalar) (path : Scalar)
    (fields : List Field) : Reads (Field.markExcluded policy inputs path fields) := by
  unfold Field.markExcluded
  split
  · exact .ok _
  · exact .fail .tooManyDigits

/-- The steps to the draft of a resource of a known plugin, with what each of them may lack. -/
theorem draft_lacks {plugin : Plugin} (hplugin : Plugin.ofValue r.plugin = .ok plugin) :
    FailsOnly (b.LacksOrUnreadable r) (b.draft r) := by
  have hreads : ∀ {α : Type} {x : Result α}, Reads x → FailsOnly (b.LacksOrUnreadable r) x :=
    fun h => h.mono fun _ => .inr
  refine Result.failsOnly_bind_of_ok ⟨plugin, hplugin⟩ fun plugin' hplugin' => ?_
  cases hplugin.symm.trans hplugin'
  refine (hreads (reads_operationIds r plugin)).bind fun _ _ => ?_
  refine (hreads (Value.reads_asText r.name)).bind fun name _ => ?_
  refine (createFields_lacks hplugin).bind fun create _ => ?_
  refine (hreads (reads_updateFields b r plugin)).bind fun update _ => ?_
  refine (responseFields_lacks hplugin).bind fun response _ => ?_
  have hactions : Reads (b.updateActions r) :=
    (reads_sortOnKey _ _).bind fun _ => reads_resolveActions b _
  refine hreads (hactions.bind fun actions => ?_)
  refine (reads_standaloneActions b _ _).bind fun _ => ?_
  refine (Filter.reads_ofOperation _ _ _).bind fun filters => ?_
  refine (reads_modelFields r create response plugin).bind fun merged => ?_
  refine (reads_pathParamNames r).bind fun names => ?_
  refine (reads_requireSortable _).bind fun sortable => ?_
  refine (reads_requireDescribable _).bind fun described => ?_
  have hupdatable : Reads (updatableNames update actions) :=
    (Value.reads_keys _).bind fun _ => .ok _
  refine hupdatable.bind fun updatable => ?_
  exact (reads_markExcluded _ _ _ _).bind fun _ => (reads_markExcluded _ _ _ _).bind fun _ => .ok _

/-- Naming structs fails only where a name is no text. -/
theorem reads_nameStructs (path : String) (registry : NameRegistry) (fields : List Field) :
    Reads (Field.nameStructs path registry fields).1 := by
  unfold Field.nameStructs
  split
  · exact .ok _
  · exact .wrongShape

theorem reads_finish (b : Builder) (r : ResourceSettings) (d : Draft)
    (model response : List Field) :
    Reads (b.finish r d model response) :=
  (reads_apiPaths b r _).bind fun _ => (reads_operationIds r _).bind fun _ => .ok _

/-- A resource of a known plugin fails for a part that it lacks, or at an unreadable value. -/
theorem resource_lacks {plugin : Plugin} (hplugin : Plugin.ofValue r.plugin = .ok plugin)
    (registry : NameRegistry) :
    FailsOnly (b.LacksOrUnreadable r) (b.resource r registry).1 := by
  intro e he
  unfold resource at he
  split at he
  · rename_i e' hdraft
    cases he
    exact draft_lacks hplugin e hdraft
  · split at he
    · rename_i hnamed
      cases he
      exact .inr (reads_nameStructs _ _ _ e (by rw [hnamed]))
    · split at he
      · rename_i hnamed
        cases he
        exact .inr (reads_nameStructs _ _ _ e (by rw [hnamed]))
      · exact .inr (reads_finish b r _ _ _ e he)

theorem reads_listItemFields (b : Builder) (id : Value) : Reads (b.listItemFields id) := by
  unfold listItemFields
  split
  · exact .ok _
  · rename_i e hno he
    rcases Document.responseSchema_missing _ _ e he with ⟨rfl, -⟩ | ⟨rfl, -⟩ | he
    · exact absurd rfl (hno _)
    · exact absurd rfl (hno _)
    · exact .fail he
  · refine (Document.reads_resolve _ _).bind fun resolved => ?_
    split
    · exact .ok _
    · refine (Extractor.reads_schemaType _ _).bind fun type => ?_
      split
      · exact Extractor.reads_extract _ _
      · exact .ok _

theorem reads_dataSourceFields (b : Builder) (base : Value) : Reads (b.dataSourceFields base) := by
  unfold dataSourceFields
  split
  · exact Extractor.reads_extract _ _
  · exact reads_listItemFields b _
  · rename_i e hno he
    rcases Document.responseSchema_missing _ _ e he with ⟨rfl, -⟩ | ⟨rfl, -⟩ | he
    · exact absurd rfl (hno _)
    · exact absurd rfl (hno _)
    · exact .fail he

theorem reads_dataSourceIds (s : DataSourceSettings) : Reads s.operationIds :=
  (Value.reads_told _).bind fun _ => .ok _

theorem reads_finishDataSource (b : Builder) (s : DataSourceSettings) (name : String)
    (filters : List Filter) (fields response : List Field) :
    Reads (b.finishDataSource s name filters fields response) :=
  (reads_pathsOf b _).bind fun _ => (reads_dataSourceIds s).bind fun _ => .ok _

/-- A data source fails only where a value cannot be read. -/
theorem reads_dataSource (b : Builder) (s : DataSourceSettings) (registry : NameRegistry) :
    Reads (b.dataSource s registry).1 := by
  have hdraft : Reads (b.dataSourceDraft s) := by
    refine (reads_dataSourceIds s).bind fun _ => (Value.reads_asText _).bind fun name => ?_
    refine (reads_dataSourceFields b _).bind fun fields => ?_
    refine (reads_requireDescribable _).bind fun described => ?_
    exact (Filter.reads_ofOperation _ _ _).bind fun _ => (reads_markExcluded _ _ _ _).bind
      fun _ => .ok _
  intro e he
  unfold dataSource at he
  split at he
  · rename_i hfails
    cases he
    exact hdraft e hfails
  · split at he
    · rename_i hnamed
      cases he
      exact reads_nameStructs _ _ _ e (by rw [hnamed])
    · split at he
      · rename_i hnamed
        cases he
        exact reads_nameStructs _ _ _ e (by rw [hnamed])
      · exact reads_finishDataSource b s _ _ _ _ e he

end Builder

/-! ## What the checks ensure -/

/-- Operations that are required exist. -/
theorem has_of_requireOperations {d : Document} {problem : Value → String → ConfigProblem}
    {ids : List (String × Value)} (h : requireOperations d problem ids = .ok ()) :
    ∀ p ∈ ids, d.has p.2 = .ok true := by
  induction ids with
  | nil => exact nofun
  | cons p rest ih =>
    obtain ⟨role, id⟩ := p
    rw [requireOperations, Result.bind_eq_ok] at h
    obtain ⟨has, hhas, h⟩ := h
    cases has with
    | false => cases h
    | true => exact List.forall_mem_cons.2 ⟨hhas, ih h⟩

theorem Config.has_of_requireResources {d : Document} {resources : List ResourceSettings}
    (h : requireResources d resources = .ok ()) :
    ∀ r ∈ resources, ∃ ids, r.operationsToCheck = .ok ids ∧ ∀ p ∈ ids, d.has p.2 = .ok true := by
  induction resources with
  | nil => exact nofun
  | cons r rest ih =>
    simp only [requireResources, Result.bind_eq_ok] at h
    obtain ⟨ids, hids, _, hrequired, hrest⟩ := h
    exact List.forall_mem_cons.2 ⟨⟨ids, hids, has_of_requireOperations hrequired⟩, ih hrest⟩

/-- The retrieve operation of a checked resource exists, unless the resource is a link. -/
theorem Config.has_retrieve {c : Config} {d : Document} (h : c.validateOperations d = .ok ())
    {r : ResourceSettings} (hr : r ∈ c.resources)
    (hchecked : r.skipOperations.any (Config.isNamed "retrieve") = false)
    (hlink : Config.isNamed "link" r.plugin = false) :
    d.has (ResourceSettings.derivedId r.baseOperationId "retrieve") = .ok true := by
  rw [validateOperations, Result.bind_eq_ok] at h
  obtain ⟨_, hresources, -⟩ := h
  obtain ⟨ids, hids, hhas⟩ := has_of_requireResources hresources r hr
  rw [ResourceSettings.operationsToCheck, Result.bind_eq_ok] at hids
  obtain ⟨_, -, hids⟩ := hids
  cases hids
  refine hhas ("retrieve", _) (List.mem_filter.2 ⟨?_, by simp [hchecked]⟩)
  simp only [ResourceSettings.neededOperations, hlink, Bool.false_eq_true, if_false]
  exact List.mem_append_left _ (List.mem_cons_of_mem _ List.mem_cons_self)

theorem Plugin.ofValue_name (plugin : Plugin) :
    ofValue (.text plugin.name) = .ok plugin := by
  cases plugin <;> rfl

namespace Builder

variable {b : Builder}

/-! ## Runs -/

/-- Why a definition of a checked configuration fails, as far as a run tells it. -/
inductive Cause (b : Builder) : Definition → Failure → Prop where
  /-- The retrieve operation is there, and no response of it on success has a schema. -/
  | response {r plugin} (hplugin : r.plugin = .text (Plugin.name plugin)) (hne : plugin ≠ .link)
      (hexists :
        b.document.has (ResourceSettings.derivedId r.baseOperationId "retrieve") = .ok true)
      (h : ¬ b.document.Returns (ResourceSettings.derivedId r.baseOperationId "retrieve")) :
      Cause b (.resource r)
        (.missing (.successResponse (ResourceSettings.derivedId r.baseOperationId "retrieve")))
  /-- The schema of an order's offering is not declared. -/
  | offering {r offering} (hplugin : r.plugin = .text Plugin.order.name)
      (hoffering : r.offeringType = .text offering)
      (h : ¬ b.document.Declares (offeringSchema offering)) :
      Cause b (.resource r) (.missing (.schema (.text (offeringSchema offering))))
  /-- A value is no pair, or shows a number of too many digits. -/
  | unreadable {d e} (h : e.Unreadable) (htold : e.isModelError = true) : Cause b d e

/-- The list operation of a definition has a filter with a value that cannot be told. -/
def UntoldFilterOf (b : Builder) : Definition → Prop
  | .resource r => b.UntoldFilter r.baseOperationId
  | .dataSource s => b.UntoldFilter s.baseOperationId

/-- What a resource of a checked configuration lacks is a response or an offering's schema. -/
theorem cause_of_lacks {c : Config} (hvalid : c.validate = .ok ())
    (hchecked : c.validateOperations b.document = .ok ()) {r : ResourceSettings}
    (hr : r ∈ c.resources) (hretrieve : r.skipOperations.any (Config.isNamed "retrieve") = false)
    {part : MissingPart} (h : b.Lacks r part) : b.Cause (.resource r) (.missing part) := by
  obtain ⟨plugin, hname⟩ := Config.plugin_of_validate hvalid r hr
  have hknown : Plugin.ofValue r.plugin = .ok plugin := by rw [hname, Plugin.ofValue_name]
  have hhas : plugin ≠ .link →
      b.document.has (ResourceSettings.derivedId r.baseOperationId "retrieve") = .ok true := by
    intro hne
    refine Config.has_retrieve hchecked hr hretrieve ?_
    rw [hname]
    cases plugin with
    | link => exact absurd rfl hne
    | standard | order => rfl
  cases h with
  | operation hplugin hne hno =>
    cases hknown.symm.trans hplugin
    cases (hhas hne).symm.trans hno
  | response hplugin hne hno =>
    cases hknown.symm.trans hplugin
    exact .response hname hne (hhas hne) hno
  | offering hplugin hoffering hno =>
    cases hknown.symm.trans hplugin
    exact .offering hname hoffering hno

/-- A failure that is told under a name is told under that of its definition. -/
theorem underName_eq_generation {name name' : Value} {e cause : Failure}
    (hno : ∀ n c, e ≠ .generation n c) (h : e.underName name = .generation name' cause) :
    name' = name ∧ cause = e ∧ e.isModelError = true := by
  unfold Failure.underName at h
  split at h
  · exact absurd rfl (hno _ _)
  · split at h
    · exact absurd h (hno _ _)
    · rename_i htold
      split at h
      · cases h
        exact ⟨rfl, rfl, by simpa using htold⟩
      · cases h

/--
Where a checked configuration checks every retrieve operation, a definition for which a run fails
lacks the response of a retrieve operation that exists, or is an order whose offering's schema is
not declared, or has met a value that cannot be read. In a regular document that is a value of a
filter.
-/
theorem cause_of_checked {c : Config} {d : Document} (hvalid : c.validate = .ok ())
    (hchecked : c.validateOperations d = .ok ()) (hb : ofConfig c d = .ok b)
    (hretrieve : ∀ r ∈ c.resources, r.skipOperations.any (Config.isNamed "retrieve") = false)
    {registry registry' : NameRegistry} {name : Value} {cause : Failure}
    (h : b.buildAll registry = (.error (.generation name cause), registry')) :
    ∃ definition ∈ c.definitions, definition.name = name ∧
      (∃ between, b.definition definition between = (.error cause, registry')) ∧
      b.Cause definition cause ∧
      (d.Regular → definition.Typed → cause.Unreadable →
        cause = .tooManyDigits none ∧ b.UntoldFilterOf definition) := by
  obtain ⟨rfl, rfl⟩ := ofConfig_eq_ok hb
  obtain ⟨before, definition, after, models, between, e, heq, -, hfails, hname⟩ :=
    buildEach_eq_error_iff.1 h
  have hmem : definition ∈ b.config.definitions := by rw [heq]; simp
  have hcause : ((∃ part, e = .missing part ∧ b.Cause definition (.missing part)) ∨
      e.Unreadable) := by
    cases definition with
    | resource r =>
      have hr := mem_resources hmem
      obtain ⟨plugin, hplugin⟩ := Config.plugin_of_validate hvalid r hr
      have hknown : Plugin.ofValue r.plugin = .ok plugin := by
        rw [hplugin, Plugin.ofValue_name]
      refine (resource_lacks hknown between e (by rw [← definition.eq_1, hfails])).imp_left ?_
      rintro ⟨part, rfl, hlacks⟩
      exact ⟨part, rfl, cause_of_lacks hvalid hchecked hr (hretrieve r hr) hlacks⟩
    | dataSource s =>
      exact .inr (reads_dataSource b s between e (by rw [← definition.eq_2, hfails]))
  have hno : ∀ n c, e ≠ .generation n c := by
    rintro n c rfl
    rcases hcause with ⟨part, hpart, -⟩ | hunreadable
    · cases hpart
    · cases hunreadable
  obtain ⟨rfl, rfl, htold⟩ := underName_eq_generation hno hname.symm
  refine ⟨definition, hmem, rfl, ⟨between, hfails⟩, ?_, ?_⟩
  · rcases hcause with ⟨part, rfl, hcause⟩ | hunreadable
    · exact hcause
    · exact .unreadable hunreadable htold
  · intro hd hdef hunreadable
    obtain ⟨-, hstop⟩ := stopsAt_of_definition hd hdef hfails
    cases hstop with
    | unknownPlugin _ | lacking _ => cases hunreadable
    | filter _ _ huntold | viewFilter huntold => exact ⟨rfl, huntold⟩
    | overflow h =>
      obtain ⟨rfl, -⟩ := h
      cases htold

namespace Sample

/-- Machines that can be listed and retrieved, by an operation that returns nothing. -/
def unanswered : Document where
  root := []
  operations :=
    [⟨.text "vm_retrieve", .text "/vms/1/", "GET", [], []⟩,
     ⟨.text "vm_list", .text "/vms/", "GET", [], []⟩]

/-- Machines whose other operations are not checked. -/
def visited : Config :=
  { machines with
    resources := [{ machine with
      skipOperations := [.text "create", .text "partial_update", .text "destroy"] }] }

/-- Machines are built from the document without a response. -/
def visitor : Builder where
  config := visited
  extractor := { document := unanswered }

theorem cause_of_checked_sample : visited.validate = .ok () ∧
    visited.validateOperations unanswered = .ok () ∧
    ofConfig visited unanswered = .ok visitor ∧
    (∀ r ∈ visited.resources, r.skipOperations.any (Config.isNamed "retrieve") = false) ∧
    visitor.buildAll {} = (.error (.generation (.text "vm")
      (.missing (.successResponse (.text "vm_retrieve")))), {}) ∧
    ∃ definition ∈ visited.definitions,
      visitor.Cause definition (.missing (.successResponse (.text "vm_retrieve"))) := by
  have hchecked : visited.validateOperations unanswered = .ok () := rfl
  have hretrieve : ∀ r ∈ visited.resources,
      r.skipOperations.any (Config.isNamed "retrieve") = false :=
    List.forall_mem_singleton.2 rfl
  have hrun : visitor.buildAll {} = (.error (.generation (.text "vm")
      (.missing (.successResponse (.text "vm_retrieve")))), {}) := rfl
  obtain ⟨definition, hmem, -, -, hcause, -⟩ :=
    cause_of_checked (b := visitor) (c := visited) (d := unanswered) rfl hchecked rfl hretrieve hrun
  exact ⟨rfl, hchecked, rfl, hretrieve, hrun, definition, hmem, hcause⟩

/-- Machines can only be looked at. -/
def views : Config :=
  { machines with resources := [], dataSources := [⟨.text "vms", .text "vm"⟩] }

/-- The view of machines fails at its filter, although the configuration passes both checks. -/
theorem view_fails : views.validate = .ok () ∧
    views.validateOperations (listing 0 untold) = .ok () ∧
    ofConfig views (listing 0 untold) = .ok ⟨views, { document := listing 0 untold }⟩ ∧
    (Builder.buildAll ⟨views, { document := listing 0 untold }⟩ {}).1 =
      .error (.generation (.text "vms") (.tooManyDigits none)) := by
  refine ⟨rfl, rfl, rfl, ?_⟩
  let viewer : Builder := ⟨views, { document := listing 0 untold }⟩
  have hfails := dataSource_fails (b := viewer) regular_listing bounded_untold
    (s := ⟨.text "vms", .text "vm"⟩) ⟨⟨_, rfl⟩, ⟨_, rfl⟩⟩ {}
  have herror := hfails.tooManyDigits.2 untoldFilter
  have hrun : viewer.definition (.dataSource ⟨.text "vms", .text "vm"⟩) {} =
      (.error (.tooManyDigits none), {}) := Prod.ext herror (hfails.unchanged _ herror)
  exact congrArg Prod.fst (buildEach_eq_error_iff.2
    ⟨[], .dataSource ⟨.text "vms", .text "vm"⟩, [], [], {}, _, rfl, rfl, hrun, rfl⟩)

end Sample

end Builder

end ApiModels
