/-
ApiModels.Proofs.Model.Resource — the steps in which a model is built.

`Drafting` keeps what the steps of `Builder.draft` give, so that a proof
about a draft need not run through them again. `resource_spec` and
`dataSource_spec` do the same for whole models: what they say of the fields
of a model is that their structs were named, those of the returned fields
after those of the model, and then collected.
-/
import ApiModels.Proofs.Model.Sides
import ApiModels.Proofs.Struct.Collect

namespace ApiModels

namespace Builder

variable {b : Builder} {r : ResourceSettings}

/-! ## Drafts -/

/-- What the steps that lead to a draft give. -/
structure Drafting (b : Builder) (r : ResourceSettings) (d : Draft) where
  create : List Field
  update : List Field
  response : List Field
  merged : List Field
  pathParams : List Scalar
  updatable : List Scalar
  plugin_eq : Plugin.ofValue r.plugin = .ok d.plugin
  name_eq : r.name.asText = .ok d.name
  create_eq : b.createFields r d.plugin = .ok create
  update_eq : b.updateFields r d.plugin = .ok update
  response_eq : b.responseFields r d.plugin = .ok response
  actions_eq : b.updateActions r = .ok d.updateActions
  filters_eq : Filter.ofOperation b.document
    (ResourceSettings.derivedId r.baseOperationId "list") (Name.spaced d.name) = .ok d.filters
  merged_eq : Builder.modelFields r create response d.plugin = .ok merged
  pathParams_eq : pathParamNames r = .ok pathParams
  updatable_eq : updatableNames update d.updateActions = .ok updatable

namespace Drafting

variable {d : Draft}

/-- The fields that creation accepts, with those for the parameters of its path. -/
def accepted (s : Drafting b r d) : List Field := s.pathParams.foldl acceptPathParam s.create

/-- The merged fields, with those for the parameters of the creation path demanded. -/
def demanded (s : Drafting b r d) : List Field := s.pathParams.foldl demandPathParam s.merged

/-- The fields of the model before they are sorted. -/
def settled (s : Drafting b r d) : List Field :=
  Field.deriveServerComputed s.accepted
    (Field.deriveForceNew s.updatable (Field.describeAll (Name.spaced d.name) s.demanded))

/-- Fields sorted, and marked where the policy excludes them. -/
def marked (s : Drafting b r d) (fields : List Field) : List Field :=
  Field.skipExcludedAll b.extractor.policy (Field.names s.accepted) (.text "")
    (Field.sortByName fields)

/-- The lists of the draft are what the steps lead to. -/
structure LeadsTo (s : Drafting b r d) : Prop where
  createFields : d.createFields = Field.sortByName s.accepted
  updateFields : d.updateFields = Field.sortByName s.update
  modelFields : d.modelFields = s.marked s.settled
  responseFields : d.responseFields = s.marked (alignResponse s.settled s.response)

end Drafting

theorem requireSortable_eq_ok {fields fields' : List Field}
    (h : Field.requireSortable fields = .ok fields') : fields' = fields := by
  unfold Field.requireSortable at h
  split at h <;> cases h
  rfl

theorem requireDescribable_eq_ok {fields fields' : List Field}
    (h : Field.requireDescribable fields = .ok fields') : fields' = fields := by
  unfold Field.requireDescribable at h
  split at h <;> cases h
  rfl

theorem markExcluded_eq_ok {policy : Policy} {inputs : List Scalar} {path : Scalar}
    {fields fields' : List Field}
    (h : Field.markExcluded policy inputs path fields = .ok fields') :
    fields' = Field.skipExcludedAll policy inputs path fields := by
  unfold Field.markExcluded at h
  split at h <;> cases h
  rfl

/-- Settling leaves of a field all but its flags. -/
theorem worded_settling (accepted : List Field) (updatable : List Scalar) (fields : List Field) :
    (Field.deriveServerComputed accepted (Field.deriveForceNew updatable fields)).map
        (Field.restate Field.worded) = fields.map (Field.restate Field.worded) := by
  rw [Field.deriveServerComputed, Field.restate_settleAll, Field.restate_deriveForceNew]

/-- Describing and settling leaves of a field its outline. -/
theorem outline_settling (accepted : List Field) (updatable : List Scalar) (label : String)
    (fields : List Field) :
    (Field.deriveServerComputed accepted (Field.deriveForceNew updatable
        (Field.describeAll label fields))).map (Field.restate Field.outline) =
      fields.map (Field.restate Field.outline) :=
  (Field.map_restate_comp Field.outline_worded (worded_settling accepted updatable _)).trans
    (Field.map_restate_comp Field.outline_silent (Field.silent_describeAll _ _))

theorem draft_spec {d : Draft} (h : b.draft r = .ok d) : ∃ s : Drafting b r d, s.LeadsTo := by
  simp only [draft, Result.bind_eq_ok] at h
  obtain ⟨plugin, hplugin, _, -, name, hname, create, hcreate, update, hupdate, response, hresponse,
    actions, hactions, _, -, filters, hfilters, merged, hmerged, pathParams, hparams, demanded,
    hdemanded, described, hdescribed, updatable, hupdatable, responseFields, hmarked, modelFields,
    hmarked', h⟩ := h
  cases h
  have hdescribed' := requireDescribable_eq_ok hdescribed
  have hdemanded' := requireSortable_eq_ok hdemanded
  subst hdescribed' hdemanded'
  refine ⟨⟨create, update, response, merged, pathParams, updatable, hplugin, hname, hcreate,
    hupdate, hresponse, hactions, hfilters, hmerged, hparams, hupdatable⟩, rfl, rfl, ?_, ?_⟩
  · exact markExcluded_eq_ok hmarked'
  · exact markExcluded_eq_ok hmarked

/-! ## The returned fields are fields of the model -/

theorem texts_subset_addParameters {description : String} {s : String}
    {params : List ParameterSettings} {fields fields' : List Field}
    (h : addParameters description params fields = .ok fields') (hs : s ∈ Field.texts fields) :
    s ∈ Field.texts fields' := by
  rw [addParameters_eq] at h
  obtain ⟨f, hf, hname⟩ := Field.mem_texts.1 hs
  exact Field.mem_texts.2 ⟨f, subset_addEach h hf, hname⟩

theorem texts_subset_demandPathParams {s : String} :
    ∀ {names : List Scalar} {fields : List Field}, s ∈ Field.texts fields →
      s ∈ Field.texts (names.foldl demandPathParam fields)
  | [], _, hs => hs
  | name :: rest, fields, hs => by
    have hstep : s ∈ Field.texts (demandPathParam fields name) := by
      unfold demandPathParam
      split
      · exact Field.mem_texts_put.2 (.inr hs)
      · exact Field.mem_texts_append.2 (.inl hs)
    rw [List.foldl_cons]
    exact texts_subset_demandPathParams hstep

/-- Where a field for every returned text is in the model, the returned fields are those. -/
theorem alignResponse_subset {model response : List Field}
    (h : ∀ s ∈ Field.texts response, s ∈ Field.texts model)
    (htext : ∀ f ∈ alignResponse model response, f.name.isText = true) :
    alignResponse model response ⊆ model := by
  intro f hf
  have hname := htext f hf
  obtain ⟨g, hg, rfl⟩ := List.mem_map.1 hf
  cases hfind : Field.find? model g.name with
  | some m => exact List.mem_of_find?_eq_some hfind
  | none =>
    rw [hfind, Option.getD_none] at hname
    obtain ⟨s, hs⟩ := Scalar.isText_iff.1 hname
    have hmem := Field.find?_isSome_iff.2 (h s (Field.mem_texts.2 ⟨g, hg, hs⟩))
    rw [← hs, hfind] at hmem
    cases hmem

namespace Drafting

variable {d : Draft}

theorem plugin_eq_of_ofValue (s : Drafting b r d) {plugin : Plugin}
    (h : Plugin.ofValue r.plugin = .ok plugin) : d.plugin = plugin :=
  Except.ok.inj (s.plugin_eq.symm.trans h)

/-- What is kept holds of the fields that are demanded. -/
theorem demanded_of_kept (s : Drafting b r d) {T : Field → Prop} (h : b.Kept (.resource r) T) :
    ∀ f ∈ s.demanded, T f :=
  h.demandPathParams (structural_pathParams s.pathParams_eq)
    (h.model s.plugin_eq (h.create s.plugin_eq s.create_eq) (h.response s.response_eq) s.merged_eq)

/-- From being described to being sorted, fields keep their descriptions. -/
theorem worded_settled (s : Drafting b r d) :
    s.settled.map (Field.restate Field.worded) =
      (Field.describeAll (Name.spaced d.name) s.demanded).map (Field.restate Field.worded) :=
  worded_settling s.accepted s.updatable _

theorem outline_settled (s : Drafting b r d) :
    s.settled.map (Field.restate Field.outline) = s.demanded.map (Field.restate Field.outline) :=
  outline_settling s.accepted s.updatable (Name.spaced d.name) s.demanded

theorem unskipped_marked (s : Drafting b r d) (fields : List Field) :
    (s.marked fields).map (Field.restate Field.unskipped) =
      (Field.sortByName fields).map (Field.restate Field.unskipped) := by
  rw [marked, Field.restate_skipExcludedAll]

theorem silent_marked (s : Drafting b r d) (fields : List Field) :
    (s.marked fields).map (Field.restate Field.silent) =
      (Field.sortByName fields).map (Field.restate Field.silent) :=
  Field.map_restate_comp Field.silent_unskipped (s.unskipped_marked fields)

theorem texts_settled (s : Drafting b r d) {t : String} (ht : t ∈ Field.texts s.response) :
    t ∈ Field.texts s.settled := by
  rw [Field.texts_of_names_eq (Field.names_restate_eq Field.keeps_outline s.outline_settled)]
  refine texts_subset_demandPathParams ?_
  have hmerged := s.merged_eq
  cases hplugin : d.plugin with
  | order =>
    rw [hplugin] at hmerged
    exact texts_subset_addParameters hmerged (Field.texts_subset_mergeOrder ht)
  | standard | link =>
    rw [hplugin] at hmerged
    have heq : Field.merge s.create s.response = s.merged := Except.ok.inj hmerged
    exact heq ▸ Field.mem_texts_merge.2 (.inr ht)

theorem aligned_subset (s : Drafting b r d) (hs : s.LeadsTo)
    (htext : ∀ f ∈ d.responseFields, f.name.isText = true) :
    alignResponse s.settled s.response ⊆ s.settled := by
  refine alignResponse_subset (fun _ => s.texts_settled) fun f hf => ?_
  rw [hs.responseFields, marked, Field.skipExcludedAll_eq, List.forall_mem_map] at htext
  have hname := htext f (Field.mem_sortByName.2 hf)
  rwa [Field.skipExcluded_name] at hname

/-- Returned fields that are named by texts are fields of the model. -/
theorem response_subset (s : Drafting b r d) (hs : s.LeadsTo)
    (htext : ∀ f ∈ d.responseFields, f.name.isText = true) : d.responseFields ⊆ d.modelFields := by
  have haligned := s.aligned_subset hs htext
  rw [hs.responseFields, hs.modelFields, marked, marked, Field.skipExcludedAll_eq,
    Field.skipExcludedAll_eq]
  refine List.map_subset _ fun f hf => ?_
  exact Field.mem_sortByName.2 (haligned (Field.mem_sortByName.1 hf))

end Drafting

/-! ## Models -/

/-- A model comes of two lists of fields: their structs are named, then the first's collected. -/
def ComesOf (model response : List Field) (registry registry' : NameRegistry)
    (m : ResourceModel) : Prop :=
  ∃ named between, Field.nameStructs "" registry model = (.ok named, between) ∧
    Field.nameStructs "" between response = (.ok m.responseFields, registry') ∧
    m.modelFields = (Field.collectAll {} named).1

theorem ComesOf.restate_modelFields {model response : List Field}
    {registry registry' : NameRegistry} {m : ResourceModel}
    (h : ComesOf model response registry registry' m) :
    m.modelFields.map (Field.restate Field.withoutRef) =
      model.map (Field.restate Field.withoutRef) := by
  obtain ⟨named, between, hnamed, -, hmodel⟩ := h
  obtain ⟨-, hassign⟩ := Field.nameStructs_eq_ok_iff.1 hnamed
  have hname := Field.restate_assignAll "" registry model
  rw [hassign] at hname
  rw [hmodel]
  exact (Field.restate_collectAll {} named).trans hname

theorem ComesOf.restate_responseFields {model response : List Field}
    {registry registry' : NameRegistry} {m : ResourceModel}
    (h : ComesOf model response registry registry' m) :
    m.responseFields.map (Field.restate Field.withoutRef) =
      response.map (Field.restate Field.withoutRef) := by
  obtain ⟨named, between, -, hresponse, -⟩ := h
  obtain ⟨-, hassign⟩ := Field.nameStructs_eq_ok_iff.1 hresponse
  have hname := Field.restate_assignAll "" between response
  rwa [hassign] at hname

/-- Where the returned fields are of the model, so they are when structs have got their names. -/
theorem ComesOf.exists_modelField {model response : List Field}
    {registry registry' : NameRegistry} {m : ResourceModel}
    (h : ComesOf model response registry registry' m)
    (hsub : (∀ f ∈ response, f.name.isText = true) → response ⊆ model) :
    ∀ f ∈ m.responseFields, ∃ g ∈ m.modelFields,
      Field.restate Field.withoutRef f = Field.restate Field.withoutRef g := by
  have htext : ∀ f ∈ response, f.name.isText = true := by
    obtain ⟨named, between, -, hresponse, -⟩ := h
    have hnameable := Field.nameableAll_iff.1 (Field.nameStructs_eq_ok_iff.1 hresponse).1
    exact fun f hf => Field.isText_of_nameable (hnameable f hf)
  intro f hf
  obtain ⟨f', hf', hff'⟩ := Field.exists_restate_eq h.restate_responseFields hf
  obtain ⟨g, hg, hgf'⟩ := Field.exists_restate_eq h.restate_modelFields.symm (hsub htext hf')
  exact ⟨g, hg, hff'.symm.trans hgf'.symm⟩

/-- What a finished model takes over from its draft, its fields aside. -/
structure Finishes (d : Draft) (m : ResourceModel) : Prop where
  name : m.name = d.name
  createFields : m.createFields = d.createFields
  updateFields : m.updateFields = d.updateFields
  updateActions : m.updateActions = d.updateActions
  filters : m.filters = d.filters

theorem resource_eq_ok {registry registry' : NameRegistry} {m : ResourceModel}
    (h : b.resource r registry = (.ok m, registry')) :
    ∃ d, b.draft r = .ok d ∧ ComesOf d.modelFields d.responseFields registry registry' m ∧
      Finishes d m := by
  unfold resource at h
  split at h
  · cases h
  · rename_i d hd
    split at h
    · cases h
    · rename_i named between hnamed
      split at h
      · cases h
      · rename_i response after hresponse
        obtain ⟨hfinish, rfl⟩ := Prod.mk.inj h
        simp only [finish, Result.bind_eq_ok] at hfinish
        obtain ⟨_, -, _, -, hm⟩ := hfinish
        cases hm
        exact ⟨d, hd, ⟨named, between, hnamed, hresponse, rfl⟩, rfl, rfl, rfl, rfl, rfl⟩

theorem resource_spec {registry registry' : NameRegistry} {m : ResourceModel}
    (h : b.resource r registry = (.ok m, registry')) :
    ∃ d, b.draft r = .ok d ∧ ComesOf d.modelFields d.responseFields registry registry' m ∧
      m.createFields = d.createFields ∧ m.updateActions = d.updateActions := by
  obtain ⟨d, hd, hcomes, hfinishes⟩ := resource_eq_ok h
  exact ⟨d, hd, hcomes, hfinishes.createFields, hfinishes.updateActions⟩

theorem dataSource_spec {s : DataSourceSettings} {registry registry' : NameRegistry}
    {m : ResourceModel} (h : b.dataSource s registry = (.ok m, registry')) :
    ∃ raw fields, b.dataSourceFields s.baseOperationId = .ok raw ∧
      fields = Field.skipExcludedAll b.extractor.policy [] (.text "")
        (Field.sortByName (Field.markDataSourceAll
          (Field.describeAll (Name.spaced m.name) raw))) ∧
      ComesOf fields fields registry registry' m ∧
      Filter.ofOperation b.document (ResourceSettings.derivedId s.baseOperationId "list")
        (Name.spaced m.name) = .ok m.filters ∧ m.createFields = [] ∧ m.updateFields = [] := by
  unfold dataSource at h
  split at h
  · cases h
  · rename_i name fields filters hdraft
    simp only [dataSourceDraft, Result.bind_eq_ok] at hdraft
    obtain ⟨_, -, name', -, found, hfound, raw, hraw, filters', hfilters, marked, hmarked,
      hdraft⟩ := hdraft
    cases hdraft
    have hsame := requireDescribable_eq_ok hraw
    subst hsame
    split at h
    · cases h
    · rename_i named between hnamed
      split at h
      · cases h
      · rename_i response after hresponse
        obtain ⟨hfinish, rfl⟩ := Prod.mk.inj h
        simp only [finishDataSource, Result.bind_eq_ok] at hfinish
        obtain ⟨_, -, _, -, hm⟩ := hfinish
        cases hm
        exact ⟨raw, fields, hfound, markExcluded_eq_ok hmarked,
          ⟨named, between, hnamed, hresponse, rfl⟩, hfilters, rfl, rfl⟩

/-- Describing and marking the fields of a data source leaves their outlines. -/
theorem outline_shown (label : String) (fields : List Field) :
    (Field.markDataSourceAll (Field.describeAll label fields)).map
        (Field.restate Field.outline) = fields.map (Field.restate Field.outline) :=
  (Field.map_restate_comp Field.outline_worded (Field.restate_markDataSourceAll _)).trans
    (Field.map_restate_comp Field.outline_silent (Field.silent_describeAll _ _))

/-! ## A small resource

A machine with a name and an owner is created, and returned with its state; its name can be
changed.
-/

namespace Sample

def textNode : Value := .record [("type", .text "string")]

def stateNode : Value := .record [("type", .text "string"), ("readOnly", .bool true)]

def ownerNode : Value := .record [("properties", .record [("name", textNode)])]

def createNode : Value :=
  .record [("properties", .record [("name", textNode), ("owner", ownerNode)]),
    ("required", .texts ["name"])]

def updateNode : Value := .record [("properties", .record [("name", textNode)])]

def responseNode : Value :=
  .record [("properties", .record [("owner", ownerNode), ("state", stateNode)])]

/-- A body with a schema in its JSON form. -/
def json (node : Value) : Value :=
  .record [("content", .record [("application/json", .record [("schema", node)])])]

def document : Document where
  root := []
  operations :=
    [⟨.text "vm_create", .text "/vms/", "POST", [(.text "requestBody", json createNode)], []⟩,
     ⟨.text "vm_retrieve", .text "/vms/1/", "GET",
       [(.text "responses", .record [("200", json responseNode)])], []⟩,
     ⟨.text "vm_partial_update", .text "/vms/1/", "PATCH",
       [(.text "requestBody", json updateNode)], []⟩]

def settings : ResourceSettings where
  name := .text "vm"
  baseOperationId := .text "vm"
  plugin := .text "standard"
  offeringType := .null
  updateActions := []
  actions := []
  terminationAttributes := []
  createOperation := none
  skipOperations := []
  linkOp := .null
  unlinkOp := .null
  source := none
  target := none
  linkParams := []

def builder : Builder where
  config :=
    { generator :=
        { openapiSchema := .null, outputDir := .null, providerName := .null, maxDepth := 3
          identifierField := .null, excludedFields := [], setFields := [], fieldOverrides := [] }
      resources := [settings]
      dataSources := [] }
  extractor := { document }

theorem exists_of_isOk {α : Type} {x : Result α × NameRegistry} (h : x.1.isOk = true) :
    ∃ a registry, x = (.ok a, registry) := by
  obtain ⟨result, registry⟩ := x
  cases result with
  | error e => cases h
  | ok a => exact ⟨a, registry, rfl⟩

theorem eq_ok_of_any {α : Type} {x : Result α} {p : α → Bool} (h : x.toOption.any p = true) :
    ∃ a, x = .ok a ∧ p a = true := by
  cases x with
  | error e => cases h
  | ok a => exact ⟨a, rfl, h⟩

theorem exists_of_any {α : Type} {x : Result α × NameRegistry} {p : α → Bool}
    (h : x.1.toOption.any p = true) : ∃ a registry, x = (.ok a, registry) ∧ p a = true := by
  obtain ⟨a, ha, hp⟩ := eq_ok_of_any h
  exact ⟨a, x.2, by rw [← ha], hp⟩

theorem resource_ok : ∃ m registry, builder.resource settings {} = (.ok m, registry) :=
  exists_of_isOk (by decide +kernel)

end Sample

end Builder

end ApiModels
