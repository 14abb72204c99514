/-
ApiModels.Proofs.Model.Stops — what can stop the building of a model.

Of a regular document, and settings of the expected types, little is left
that can stop a definition (`Builder.StopsAt`): a plugin that nobody knows, a
part that is missing and that the plugin cannot do without
(`Builder.Lacking`), a filter with a value that cannot be told, and a bound
beyond the doubles. The steps of a draft are gone through one by one
(`draft_failsOnly`). All that can stop a definition comes before its structs
are named, so one that is stopped leaves the registry as it was
(`stopsAt_of_definition`).
-/
import ApiModels.Proofs.Extract.Regular
import ApiModels.Proofs.Model.Flags
import ApiModels.Proofs.Model.Run

namespace ApiModels

open ApiModels.Result (FailsOnly failsOnly_ok failsOnly_error failsOnly_of_ok failsOnly_bind_of_ok)
open ApiModels.Value (IsText)

/-! ## Settings of the expected types -/

/-- A parameter has a name and a type that are texts. -/
structure ParameterSettings.Typed (p : ParameterSettings) : Prop where
  name : p.name.IsText
  type : p.type.IsText

/-- The settings of a resource are texts, in the lists and objects where they are expected. -/
structure ResourceSettings.Typed (r : ResourceSettings) : Prop where
  name : r.name.IsText
  baseOperationId : r.baseOperationId.IsText
  plugin : r.plugin.IsText
  offeringType : r.offeringType.IsText
  updateActions : ∀ a ∈ r.updateActions, a.name.isText = true ∧ a.operation.IsText ∧
    a.param.IsText ∧ a.compareKey.IsText
  actions : ∀ a ∈ r.actions, a.IsText
  terminationAttributes : ∀ p ∈ r.terminationAttributes, p.Typed
  createOperation : ∀ c, r.createOperation = some c →
    c.operationId.IsText ∧ ∀ p ∈ c.pathParams, p.1.isText = true ∧ p.2.IsText
  linkOp : r.linkOp.IsText
  unlinkOp : r.unlinkOp.IsText
  ends : ∀ e, r.source = some e ∨ r.target = some e → e.param.IsText ∧ e.retrieveOp.IsText
  linkParams : ∀ p ∈ r.linkParams, p.Typed

/-- The settings of a data source are texts. -/
structure DataSourceSettings.Typed (s : DataSourceSettings) : Prop where
  name : s.name.IsText
  baseOperationId : s.baseOperationId.IsText

/-- The settings of a definition have the expected types. -/
def Definition.Typed : Definition → Prop
  | .resource r => r.Typed
  | .dataSource s => s.Typed

/-- A plugin is set, and there is none of its name. -/
def ResourceSettings.UnknownPlugin (r : ResourceSettings) : Prop :=
  r.plugin.given = true ∧ ∀ plugin : Plugin, r.plugin ≠ .text plugin.name

theorem ResourceSettings.Typed.plugin_cases {r : ResourceSettings} (hr : r.Typed) :
    (r.UnknownPlugin ∧ Plugin.ofValue r.plugin = .error (.unknownPlugin r.plugin)) ∨
    (¬ r.UnknownPlugin ∧ ∃ plugin, Plugin.ofValue r.plugin = .ok plugin) := by
  obtain ⟨s, hs⟩ := hr.plugin
  unfold UnknownPlugin
  rw [hs]
  by_cases hknown : ∃ plugin : Plugin, plugin.name = s
  · obtain ⟨plugin, rfl⟩ := hknown
    refine .inr ⟨fun h => h.2 plugin rfl, plugin, ?_⟩
    cases plugin <;> rfl
  · have hne : ∀ plugin : Plugin, (plugin.name == s) = false := fun plugin =>
      beq_eq_false_iff_ne.2 fun h => hknown ⟨plugin, h⟩
    by_cases hgiven : (Value.text s).given = true
    · refine .inl ⟨⟨hgiven, fun plugin h => hknown ⟨plugin, by cases h; rfl⟩⟩, ?_⟩
      rw [Plugin.ofValue, Value.orElse, if_pos hgiven]
      simp only [Value.key, bind, Except.bind, List.find?_cons, hne, List.find?_nil]
      rfl
    · refine .inr ⟨fun h => hgiven h.1, .standard, ?_⟩
      rw [Plugin.ofValue, Value.orElse, if_neg hgiven]
      rfl

theorem ResourceSettings.Typed.createId {r : ResourceSettings} (hr : r.Typed) :
    r.createId.IsText := by
  unfold ResourceSettings.createId
  split
  · rename_i c hc
    split
    · exact (hr.createOperation c hc).1
    · exact ⟨_, rfl⟩
  · exact ⟨_, rfl⟩

namespace Builder

/-! ## What stops a definition -/

/-- A resource cannot do without a part that the document lacks. -/
inductive Lacking (b : Builder) (r : ResourceSettings) : Prop where
  | offering {offering} (hplugin : Plugin.ofValue r.plugin = .ok .order)
      (hoffering : r.offeringType = .text offering)
      (h : ¬ b.document.Declares (offeringSchema offering)) : Lacking b r
  | response {plugin} (hplugin : Plugin.ofValue r.plugin = .ok plugin) (hne : plugin ≠ .link)
      (h : ¬ b.document.Returns (ResourceSettings.derivedId r.baseOperationId "retrieve")) :
      Lacking b r

/-- The list operation of a definition has a filter with a value that cannot be told. -/
def UntoldFilter (b : Builder) (base : Value) : Prop :=
  Filter.Untold b.document (ResourceSettings.derivedId base "list")

/-- What can stop the building of a definition, and when. -/
inductive StopsAt (b : Builder) : Definition → Failure → Prop where
  | unknownPlugin {r} (h : r.UnknownPlugin) : StopsAt b (.resource r) (.unknownPlugin r.plugin)
  | lacking {r part} (h : b.Lacking r) : StopsAt b (.resource r) (.missing part)
  | filter {r} (hplugin : ¬ r.UnknownPlugin) (hcomplete : ¬ b.Lacking r)
      (h : b.UntoldFilter r.baseOperationId) : StopsAt b (.resource r) (.tooManyDigits none)
  | viewFilter {s} (h : b.UntoldFilter s.baseOperationId) :
      StopsAt b (.dataSource s) (.tooManyDigits none)
  | overflow {d e} (h : b.document.Overflow e) : StopsAt b d e

variable {b : Builder} {r : ResourceSettings} {s : DataSourceSettings}

/-! ## Names that are texts -/

theorem key_isText {v : Value} (h : v.IsText) {name : Scalar} (hname : v.key = .ok name) :
    name.isText = true := by
  obtain ⟨s, rfl⟩ := h
  cases hname
  rfl

theorem endpointParams_texts (hr : r.Typed) : ∀ p ∈ endpointParams r, p.1.IsText := by
  intro p hp
  obtain ⟨⟨e, he, heq⟩, -⟩ := endpointParams_cases hp
  exact heq ▸ (hr.ends e he).1

theorem structural_isText (hr : r.Typed) {name : Scalar} (h : Structural r name) :
    name.isText = true := by
  cases h with
  | common _ hf =>
    have hcommon : ∀ f ∈ orderCommonFields, f.name.isText = true := by decide
    exact hcommon _ hf
  | termination _ hp hname => exact key_isText (hr.terminationAttributes _ hp).name hname
  | endpoint _ hp hname => exact key_isText (endpointParams_texts hr _ hp) hname
  | linkParam _ hp hname => exact key_isText (hr.linkParams _ hp).name hname
  | pathParam hc hp hname => exact key_isText ((hr.createOperation _ hc).2 _ hp).2 hname

/-- A field that fits is named by texts, and so are the fields inside it. -/
def TextNamed (f : Field) : Prop :=
  f.name.isText = true ∧
    Field.Everywhere (fun f => f.Fits ∧ ∀ g ∈ f.properties, g.name.isText = true) f

theorem TextNamed.textNames {f : Field} (h : TextNamed f) : f.TextNames :=
  ⟨h.1, h.2.imp fun _ hf => hf.2⟩

/-- The fields of a definition are named by texts on every level. -/
theorem kept_textNamed (hd : b.document.Regular) {d : Definition}
    (hnames : ∀ name, d.Structural name → name.isText = true) : b.Kept d TextNamed := by
  refine kept_of_joinable (Field.fits_joinable.and (Field.named_joinable (N := (·.isText))))
    (fun f g h hf _ hj => hj.name ▸ hf) (fun f hf => hf.1) ?_ ?_
  · intro node fields hnode h f hf
    obtain ⟨hname, hinside⟩ := Extractor.extract_named hd.namesAre hnode h f hf
    have hfits := (Extractor.extract_shaped h f hf).imp fun _ hg => hg.1.fits
    exact ⟨hname, hfits.and hinside⟩
  · exact fun info hinfo hname => ⟨hnames _ hname, hinfo.fits, nofun⟩

/-! ## The sides -/

theorem requestFields_failsOnly (hd : b.document.Regular) {id : Value} (hid : id.IsText) :
    FailsOnly b.document.Overflow (b.requestFields id) := by
  obtain ⟨s, rfl⟩ := hid
  unfold requestFields
  split
  · rename_i schema hschema
    exact Extractor.extract_failsOnly hd (Document.requestSchema_spec hschema)
  · exact failsOnly_ok _
  · rename_i e hno he
    obtain ⟨part, rfl⟩ := Document.requestSchema_failsOnly hd s e he
    exact absurd rfl (hno part)

theorem addEach_ok {makes : List (Value × (Scalar → Field))} (h : ∀ m ∈ makes, m.1.IsText) :
    ∀ fields, ∃ fields', addEach makes fields = .ok fields' := by
  induction makes with
  | nil => exact fun fields => ⟨fields, rfl⟩
  | cons m rest ih =>
    obtain ⟨name, make⟩ := m
    obtain ⟨⟨s, rfl⟩, hrest⟩ := List.forall_mem_cons.1 h
    intro fields
    have hadded : ∃ added, addField fields (.text s) make = .ok added := by
      simp only [addField, Value.key, bind, Except.bind]
      split <;> exact ⟨_, rfl⟩
    obtain ⟨added, hadded⟩ := hadded
    obtain ⟨fields', hfields'⟩ := ih hrest added
    exact ⟨fields', by rw [addEach, hadded]; exact hfields'⟩

theorem addParameters_ok {params : List ParameterSettings} (h : ∀ p ∈ params, p.Typed)
    (description : String) (fields : List Field) :
    ∃ fields', addParameters description params fields = .ok fields' := by
  rw [addParameters_eq]
  exact addEach_ok (List.forall_mem_map.2 fun p hp => (h p hp).name) fields

theorem addEndpoints_ok (hr : r.Typed) (fields : List Field) :
    ∃ fields', addEndpoints (endpointParams r) fields = .ok fields' := by
  rw [addEndpoints_eq]
  exact addEach_ok (List.forall_mem_map.2 (endpointParams_texts hr)) fields

/-- The fields of an order are missing exactly where its offering's schema is not declared. -/
theorem createFields_failsOnly (hd : b.document.Regular) (hr : r.Typed) {plugin : Plugin}
    (hplugin : Plugin.ofValue r.plugin = .ok plugin) :
    FailsOnly (b.StopsAt (.resource r)) (b.createFields r plugin) := by
  cases plugin with
  | standard =>
    have hrequest := requestFields_failsOnly hd hr.createId
    refine (hrequest.mono fun _ => .overflow).bind fun fields _ => ?_
    obtain ⟨id, hid⟩ := hr.createId
    split
    · rw [hid]
      exact failsOnly_bind_of_ok ⟨_, rfl⟩ fun _ _ => failsOnly_ok _
    · exact failsOnly_ok _
  | order =>
    obtain ⟨offering, hoffering⟩ := hr.offeringType
    refine failsOnly_bind_of_ok ⟨offering, by rw [hoffering]; rfl⟩ fun offering' hoffering' => ?_
    rw [hoffering] at hoffering'
    cases hoffering'
    refine .bind (fun e he => ?_) fun schema hschema => ?_
    · obtain ⟨⟨part, rfl⟩, hundeclared⟩ := Document.schema_failsOnly hd _ e he
      exact .lacking (.offering hplugin hoffering hundeclared)
    · have hextract := Extractor.extract_failsOnly hd (.component hschema)
      exact (hextract.mono fun _ => .overflow).bind fun _ _ => failsOnly_ok _
  | link =>
    have hrequest := requestFields_failsOnly hd hr.linkOp
    refine (hrequest.mono fun _ => .overflow).bind fun fields _ => ?_
    refine failsOnly_bind_of_ok (addEndpoints_ok hr fields) fun fields' _ => ?_
    exact failsOnly_of_ok (addParameters_ok hr.linkParams _ fields')

theorem updateFields_failsOnly (hd : b.document.Regular) (plugin : Plugin) :
    FailsOnly b.document.Overflow (b.updateFields r plugin) := by
  cases plugin with
  | link => exact failsOnly_ok _
  | standard | order => exact requestFields_failsOnly hd ⟨_, rfl⟩

/-- What is returned is missing exactly where there is no response, save of a link. -/
theorem responseFields_failsOnly (hd : b.document.Regular) (hr : r.Typed) {plugin : Plugin}
    (hplugin : Plugin.ofValue r.plugin = .ok plugin) :
    FailsOnly (b.StopsAt (.resource r)) (b.responseFields r plugin) := by
  have hextract : ∀ {node : Value}, b.document.Schema node →
      FailsOnly (b.StopsAt (.resource r)) (b.extractor.extract node) := fun hnode =>
    (Extractor.extract_failsOnly hd hnode).mono fun _ => .overflow
  have hmissing := Document.responseSchema_failsOnly hd
    (r.baseOperationId.display ++ "_" ++ "retrieve")
  cases plugin with
  | link =>
    simp only [responseFields]
    split
    · rename_i schema hschema
      have htexts : ∀ v ∈ (endpointParams r).map (·.1), v.IsText :=
        List.forall_mem_map.2 (endpointParams_texts hr)
      obtain ⟨names, hnames, -⟩ := Value.keys_ok htexts
      exact (hextract (Document.responseSchema_spec hschema)).bind fun _ _ =>
        failsOnly_bind_of_ok ⟨names, hnames⟩ fun _ _ => failsOnly_ok _
    · exact failsOnly_ok _
    · rename_i e hno he
      obtain ⟨⟨part, rfl⟩, -⟩ := hmissing e he
      exact absurd rfl (hno part)
  | standard | order =>
    refine .bind (fun e he => ?_) fun schema hschema =>
      hextract (Document.responseSchema_spec hschema)
    obtain ⟨⟨part, rfl⟩, hno⟩ := hmissing e he
    exact .lacking (.response hplugin (by simp) hno)

/-- A resource whose sides could be read lacks nothing. -/
theorem not_lacking (hd : b.document.Regular) {plugin : Plugin}
    (hplugin : Plugin.ofValue r.plugin = .ok plugin) {create response : List Field}
    (hcreate : b.createFields r plugin = .ok create)
    (hresponse : b.responseFields r plugin = .ok response) : ¬ b.Lacking r := by
  rintro (⟨hplugin', hoffering, hundeclared⟩ | ⟨hplugin', hne, hno⟩)
  · cases hplugin.symm.trans hplugin'
    simp only [createFields, hoffering, Result.bind_eq_ok] at hcreate
    obtain ⟨_, hname, node, hnode, -⟩ := hcreate
    cases hname
    exact hundeclared (Document.declares_of_schema hd hnode)
  · cases hplugin.symm.trans hplugin'
    cases plugin with
    | link => exact hne rfl
    | standard | order =>
      simp only [responseFields, Result.bind_eq_ok] at hresponse
      obtain ⟨node, hnode, -⟩ := hresponse
      exact hno (Document.returns_of_responseSchema hnode)

theorem modelFields_ok (hr : r.Typed) (create response : List Field) (plugin : Plugin) :
    ∃ fields, modelFields r create response plugin = .ok fields := by
  cases plugin with
  | order => exact addParameters_ok hr.terminationAttributes _ _
  | standard | link => exact ⟨_, rfl⟩

theorem operationIds_ok (hr : r.Typed) (plugin : Plugin) :
    ∃ ids, operationIds r plugin = .ok ids := by
  obtain ⟨base, hbase⟩ := hr.baseOperationId
  have hids : ∃ ids, r.operationIds = .ok ids := by
    rw [ResourceSettings.operationIds, hbase]
    exact ⟨_, rfl⟩
  obtain ⟨ids, hids⟩ := hids
  cases plugin with
  | link => exact ⟨_, by rw [operationIds, hids]; rfl⟩
  | standard | order => exact ⟨ids, hids⟩

/-! ## Actions and paths -/

theorem pathOf?_ok {id : Value} (h : id.IsText) : ∃ path, b.pathOf? id = .ok path := by
  obtain ⟨s, rfl⟩ := h
  exact ⟨_, rfl⟩

theorem pathsOf_ok {ids : List (String × Value)} (h : ∀ p ∈ ids, p.2.IsText) :
    ∃ paths, b.pathsOf ids = .ok paths := by
  refine Result.ok_of_never ?_
  induction ids with
  | nil => exact failsOnly_ok _
  | cons p rest ih =>
    obtain ⟨hp, hrest⟩ := List.forall_mem_cons.1 h
    refine failsOnly_bind_of_ok (pathOf?_ok hp) fun path _ => (ih hrest).bind fun others _ => ?_
    split <;> exact failsOnly_ok _

theorem resolveActions_ok {actions : List ActionSettings}
    (h : ∀ a ∈ actions, a.operation.IsText ∧ a.param.IsText) :
    ∃ resolved, b.resolveActions actions = .ok resolved ∧ ∀ u ∈ resolved, u.param.IsText := by
  induction actions with
  | nil => exact ⟨[], rfl, nofun⟩
  | cons a rest ih =>
    obtain ⟨⟨hoperation, hparam⟩, hrest⟩ := List.forall_mem_cons.1 h
    obtain ⟨resolved, hresolved, htexts⟩ := ih hrest
    obtain ⟨path, hpath⟩ := pathOf?_ok (b := b) hoperation
    have hcons : b.resolveActions (a :: rest) = .ok
        ({ name := .scalar a.name, operation := a.operation, param := a.param
           compareKey := a.compareKey.orElse a.param
           path := path.getD (.text "") } :: resolved) := by
      rw [resolveActions, actionPath, hpath, hresolved]
      rfl
    exact ⟨_, hcons, List.forall_mem_cons.2 ⟨hparam, htexts⟩⟩

theorem updateActions_ok (hr : r.Typed) :
    ∃ actions, b.updateActions r = .ok actions ∧ ∀ u ∈ actions, u.param.IsText := by
  have hnames : ∀ a ∈ r.updateActions, (ActionSettings.name a).isText = true :=
    fun a ha => (hr.updateActions a ha).1
  obtain ⟨sorted, hsorted⟩ := sortOnKey_ok hnames
  have htexts : ∀ a ∈ sorted, a.operation.IsText ∧ a.param.IsText := by
    intro a ha
    obtain ⟨-, hoperation, hparam, -⟩ :=
      hr.updateActions a ((sortOnKey_perm hsorted).mem_iff.1 ha)
    exact ⟨hoperation, hparam⟩
  obtain ⟨actions, hactions, htexts⟩ := resolveActions_ok (b := b) htexts
  exact ⟨actions, by rw [updateActions, hsorted]; exact hactions, htexts⟩

theorem standaloneActions_ok (base : Value) {actions : List Value} (h : ∀ a ∈ actions, a.IsText) :
    ∃ resolved, b.standaloneActions base actions = .ok resolved := by
  refine Result.ok_of_never ?_
  induction actions with
  | nil => exact failsOnly_ok _
  | cons a rest ih =>
    obtain ⟨⟨name, rfl⟩, hrest⟩ := List.forall_mem_cons.1 h
    refine failsOnly_bind_of_ok ⟨name, rfl⟩ fun _ _ => failsOnly_bind_of_ok ⟨_, rfl⟩ fun _ _ =>
      (ih hrest).bind fun _ _ => failsOnly_ok _

theorem pathParamNames_ok (hr : r.Typed) : ∃ names, pathParamNames r = .ok names := by
  unfold pathParamNames
  split
  · rename_i c hc
    have htexts : ∀ v ∈ c.pathParams.map (·.2), v.IsText :=
      List.forall_mem_map.2 fun p hp => ((hr.createOperation c hc).2 p hp).2
    obtain ⟨names, hnames, -⟩ := Value.keys_ok htexts
    exact ⟨names, hnames⟩
  · exact ⟨[], rfl⟩

theorem updatableNames_ok (update : List Field) {actions : List UpdateAction}
    (h : ∀ u ∈ actions, u.param.IsText) : ∃ names, updatableNames update actions = .ok names := by
  have htexts : ∀ v ∈ (actions.map (·.param)).filter Value.given, v.IsText :=
    fun v hv => List.forall_mem_map.2 h v (List.mem_filter.1 hv).1
  obtain ⟨params, hparams, -⟩ := Value.keys_ok htexts
  exact ⟨_, by rw [updatableNames, hparams]; rfl⟩

theorem addPathParams_ok {params : Members} (h : ∀ p ∈ params, p.1.isText = true) :
    ∀ paths, ∃ paths', addPathParams paths params = .ok paths' := by
  induction params with
  | nil => exact fun paths => ⟨paths, rfl⟩
  | cons p rest ih =>
    obtain ⟨hp, hrest⟩ := List.forall_mem_cons.1 h
    intro paths
    obtain ⟨name, hname⟩ := Value.told_ok hp
    obtain ⟨paths', hpaths'⟩ :=
      ih hrest (Members.set paths (.text ("CreatePathParam_" ++ name)) p.2)
    exact ⟨paths', by rw [addPathParams, hname]; exact hpaths'⟩

theorem createPaths_ok (hr : r.Typed) (paths : Members) :
    ∃ paths', createPaths r paths = .ok paths' := by
  unfold createPaths
  split
  · rename_i c hc
    split
    · exact addPathParams_ok (fun p hp => ((hr.createOperation c hc).2 p hp).1) _
    · exact ⟨_, rfl⟩
  · exact ⟨_, rfl⟩

theorem apiPaths_ok (hr : r.Typed) (plugin : Plugin) :
    ∃ paths, b.apiPaths r plugin = .ok paths := by
  have hderived : ∀ operation,
      (ResourceSettings.derivedId r.baseOperationId operation).IsText := fun _ => ⟨_, rfl⟩
  cases plugin with
  | standard | order =>
    refine Result.ok_of_never (failsOnly_bind_of_ok (pathsOf_ok ?_) fun paths _ =>
      failsOnly_of_ok (createPaths_ok hr paths))
    simp [hderived, hr.createId]
  | link =>
    refine pathsOf_ok (List.forall_mem_append.2 ⟨by simp [hderived, hr.linkOp, hr.unlinkOp], ?_⟩)
    split
    · rename_i e he
      split
      · simpa using (hr.ends e (.inl he)).2
      · exact nofun
    · exact nofun

/-! ## Drafts -/

theorem known_of_ofValue (hr : r.Typed) {plugin : Plugin}
    (h : Plugin.ofValue r.plugin = .ok plugin) : ¬ r.UnknownPlugin := by
  intro hunknown
  rcases hr.plugin_cases with ⟨-, herror⟩ | ⟨hknown, -⟩
  · cases h.symm.trans herror
  · exact hknown hunknown

/-- What holds of the fields of a model and of a response holds of the aligned ones. -/
theorem forall_alignResponse {T : Field → Prop} {model response : List Field}
    (hmodel : ∀ f ∈ model, T f) (hresponse : ∀ f ∈ response, T f) :
    ∀ f ∈ alignResponse model response, T f := by
  refine List.forall_mem_map.2 fun f hf => ?_
  cases hfind : Field.find? model f.name with
  | none => exact hresponse f hf
  | some g => exact hmodel g (List.mem_of_find?_eq_some hfind)

/-- The steps to the draft of a resource fail only at what stops it. -/
theorem draft_failsOnly (hd : b.document.Regular) (hr : r.Typed) :
    FailsOnly (b.StopsAt (.resource r)) (b.draft r) := by
  have hplugin : FailsOnly (b.StopsAt (.resource r)) (Plugin.ofValue r.plugin) := by
    rcases hr.plugin_cases with ⟨hunknown, h⟩ | ⟨-, hok⟩
    · rw [h]
      exact failsOnly_error (.unknownPlugin hunknown)
    · exact failsOnly_of_ok hok
  refine hplugin.bind fun plugin hplugin => ?_
  refine failsOnly_bind_of_ok (operationIds_ok hr plugin) fun _ _ => ?_
  refine failsOnly_bind_of_ok (Value.asText_ok hr.name) fun name _ => ?_
  refine (createFields_failsOnly hd hr hplugin).bind fun create hcreate => ?_
  have hupdate := updateFields_failsOnly (r := r) hd plugin
  refine (hupdate.mono fun _ => .overflow).bind fun update _ => ?_
  refine (responseFields_failsOnly hd hr hplugin).bind fun response hresponse => ?_
  obtain ⟨actions, hactions, hparams⟩ := updateActions_ok (b := b) hr
  refine failsOnly_bind_of_ok ⟨actions, hactions⟩ fun actions' hactions' => ?_
  cases hactions.symm.trans hactions'
  refine failsOnly_bind_of_ok (standaloneActions_ok _ hr.actions) fun _ _ => ?_
  have hfilters := Filter.ofOperation_failsOnly hd
    (r.baseOperationId.display ++ "_" ++ "list") (Name.spaced name)
  refine (hfilters.mono ?_).bind fun filters _ => ?_
  · rintro _ ⟨rfl, huntold⟩
    exact .filter (known_of_ofValue hr hplugin) (not_lacking hd hplugin hcreate hresponse) huntold
  refine failsOnly_bind_of_ok (modelFields_ok hr create response plugin) fun merged hmerged => ?_
  refine failsOnly_bind_of_ok (pathParamNames_ok hr) fun names hnames => ?_
  -- From here on all fields are named by texts, and no step that is left asks for more.
  have hkept := kept_textNamed hd (d := .resource r) fun _ => structural_isText hr
  have htold := hkept.response hresponse
  have hdemanded := hkept.demandPathParams (structural_pathParams hnames)
    (hkept.model hplugin (hkept.create hplugin hcreate) htold hmerged)
  have hnamed := fun f hf => (hdemanded f hf).textNames
  refine failsOnly_bind_of_ok (Field.requireSortable_ok hnamed) fun demanded hsame => ?_
  rw [requireSortable_eq_ok hsame]
  refine failsOnly_bind_of_ok (Field.requireDescribable_ok hnamed) fun described hsame => ?_
  rw [requireDescribable_eq_ok hsame]
  refine failsOnly_bind_of_ok (updatableNames_ok update hparams) fun updatable _ => ?_
  have hsettled := Field.textNames_restate_eq Field.keeps_outline
    (outline_settling (names.foldl acceptPathParam create) updatable (Name.spaced name) _).symm
    hnamed
  have haligned := forall_alignResponse hsettled fun f hf => (htold f hf).textNames
  refine failsOnly_bind_of_ok (Field.markExcluded_ok (Field.textNames_sortByName haligned))
    fun _ _ => ?_
  exact failsOnly_bind_of_ok (Field.markExcluded_ok (Field.textNames_sortByName hsettled))
    fun _ _ => failsOnly_ok _

/-- The fields of a draft are named by texts. -/
theorem textNames_of_draft (hd : b.document.Regular) (hr : r.Typed) {d : Draft}
    (h : b.draft r = .ok d) :
    (∀ f ∈ d.modelFields, f.TextNames) ∧ ∀ f ∈ d.responseFields, f.TextNames := by
  obtain ⟨s, hs⟩ := draft_spec h
  have hkept := kept_textNamed hd (d := .resource r) fun _ => structural_isText hr
  have hsettled : ∀ f ∈ s.settled, f.TextNames :=
    Field.textNames_restate_eq Field.keeps_outline s.outline_settled.symm
      fun f hf => (s.demanded_of_kept hkept f hf).textNames
  have hmarked : ∀ {fields : List Field}, (∀ f ∈ fields, f.TextNames) →
      ∀ f ∈ s.marked fields, f.TextNames := fun hfields =>
    Field.textNames_restate_eq Field.keeps_silent (s.silent_marked _).symm
      (Field.textNames_sortByName hfields)
  have hresponse := hkept.response s.response_eq
  rw [hs.modelFields, hs.responseFields]
  exact ⟨hmarked hsettled,
    hmarked (forall_alignResponse hsettled fun f hf => (hresponse f hf).textNames)⟩

theorem listItemFields_failsOnly (hd : b.document.Regular) (id : String) :
    FailsOnly b.document.Overflow (b.listItemFields (.text id)) := by
  unfold listItemFields
  split
  · exact failsOnly_ok _
  · rename_i e hno he
    obtain ⟨⟨part, rfl⟩, -⟩ := Document.responseSchema_failsOnly hd id e he
    exact absurd rfl (hno part)
  · rename_i node hnode
    have hschema := Document.responseSchema_spec hnode
    obtain ⟨⟨found, n⟩, hresolve, hholds⟩ := hd.resolve (.schema hschema)
    refine failsOnly_bind_of_ok ⟨_, hresolve⟩ fun resolved hresolved => ?_
    cases hresolve.symm.trans hresolved
    cases found with
    | none => exact failsOnly_ok _
    | some list =>
      have htype := Extractor.schemaType_ok hd (hholds list rfl)
      refine failsOnly_bind_of_ok htype fun type htype => ?_
      split
      · rename_i items hitems
        have hinner := Document.Schema.items hschema hresolve
        rw [Members.get, hitems] at hinner
        exact Extractor.extract_failsOnly hd hinner
      · exact failsOnly_ok _

theorem dataSourceFields_failsOnly (hd : b.document.Regular) (base : Value) :
    FailsOnly b.document.Overflow (b.dataSourceFields base) := by
  unfold dataSourceFields
  split
  · rename_i node hnode
    exact Extractor.extract_failsOnly hd (Document.responseSchema_spec hnode)
  · exact listItemFields_failsOnly hd _
  · rename_i e hno he
    obtain ⟨⟨part, rfl⟩, -⟩ := Document.responseSchema_failsOnly hd _ e he
    exact absurd rfl (hno part)

theorem textNames_of_dataSourceFields (hd : b.document.Regular) {fields : List Field}
    (h : b.dataSourceFields s.baseOperationId = .ok fields) : ∀ f ∈ fields, f.TextNames := by
  have hkept := kept_textNamed hd (d := .dataSource s) (fun _ => False.elim)
  exact fun f hf => (hkept.dataSource h f hf).textNames

theorem textNames_shown (label : String) {fields : List Field} (h : ∀ f ∈ fields, f.TextNames) :
    ∀ f ∈ Field.markDataSourceAll (Field.describeAll label fields), f.TextNames :=
  Field.textNames_restate_eq Field.keeps_outline (outline_shown label fields).symm h

theorem dataSourceIds_ok (hs : s.Typed) : ∃ ids, s.operationIds = .ok ids := by
  obtain ⟨base, hbase⟩ := hs.baseOperationId
  exact ⟨_, by rw [DataSourceSettings.operationIds, hbase]; rfl⟩

/-- The steps to the draft of a data source fail only at what stops it. -/
theorem dataSourceDraft_failsOnly (hd : b.document.Regular) (hs : s.Typed) :
    FailsOnly (b.StopsAt (.dataSource s)) (b.dataSourceDraft s) := by
  refine failsOnly_bind_of_ok (dataSourceIds_ok hs) fun _ _ => ?_
  refine failsOnly_bind_of_ok (Value.asText_ok hs.name) fun name _ => ?_
  have hfields := dataSourceFields_failsOnly hd s.baseOperationId
  refine (hfields.mono fun _ => .overflow).bind fun fields hfields => ?_
  have hnamed := textNames_of_dataSourceFields hd hfields
  refine failsOnly_bind_of_ok (Field.requireDescribable_ok hnamed) fun described hsame => ?_
  rw [requireDescribable_eq_ok hsame]
  have hfilters := Filter.ofOperation_failsOnly hd
    (s.baseOperationId.display ++ "_" ++ "list") (Name.spaced name)
  refine (hfilters.mono ?_).bind fun filters _ => ?_
  · rintro _ ⟨rfl, huntold⟩
    exact .viewFilter huntold
  have hshown := Field.textNames_sortByName (textNames_shown (Name.spaced name) hnamed)
  exact failsOnly_bind_of_ok (Field.markExcluded_ok hshown) fun _ _ => failsOnly_ok _

theorem textNames_of_dataSourceDraft (hd : b.document.Regular) {name : String}
    {fields : List Field} {filters : List Filter}
    (h : b.dataSourceDraft s = .ok (name, fields, filters)) : ∀ f ∈ fields, f.TextNames := by
  simp only [dataSourceDraft, Result.bind_eq_ok] at h
  obtain ⟨_, -, name', -, found, hfound, raw, hraw, filters', -, marked, hmarked, h⟩ := h
  cases h
  rw [requireDescribable_eq_ok hraw] at hmarked
  rw [markExcluded_eq_ok hmarked]
  have hshown := textNames_shown (Name.spaced name) (textNames_of_dataSourceFields hd hfound)
  exact Field.textNames_restate_eq Field.keeps_outline (Field.map_restate_comp
    Field.outline_unskipped (Field.restate_skipExcludedAll _ _ _ _)).symm
    (Field.textNames_sortByName hshown)

/-! ## Definitions -/

theorem finish_ok (hr : r.Typed) (d : Draft) (model response : List Field) :
    ∃ m, b.finish r d model response = .ok m := by
  obtain ⟨paths, hpaths⟩ := apiPaths_ok (b := b) hr d.plugin
  obtain ⟨ids, hids⟩ := operationIds_ok hr d.plugin
  exact ⟨_, by rw [finish, hpaths, hids]; rfl⟩

theorem finishDataSource_ok (hs : s.Typed) (name : String) (filters : List Filter)
    (fields response : List Field) :
    ∃ m, b.finishDataSource s name filters fields response = .ok m := by
  have hderived : ∀ operation,
      (ResourceSettings.derivedId s.baseOperationId operation).IsText := fun _ => ⟨_, rfl⟩
  have htexts : ∀ p ∈ [("Base", ResourceSettings.derivedId s.baseOperationId "list"),
      ("Retrieve", ResourceSettings.derivedId s.baseOperationId "retrieve")], p.2.IsText := by
    simp [hderived]
  obtain ⟨paths, hpaths⟩ := pathsOf_ok (b := b) htexts
  obtain ⟨ids, hids⟩ := dataSourceIds_ok hs
  exact ⟨_, by rw [finishDataSource, hpaths, hids]; rfl⟩

/-- A resource fails where its draft does, and then leaves the registry as it was. -/
theorem resource_cases (hd : b.document.Regular) (hr : r.Typed) (registry : NameRegistry) :
    (∃ e, b.draft r = .error e ∧ b.resource r registry = (.error e, registry)) ∨
      ∃ d m registry', b.draft r = .ok d ∧ b.resource r registry = (.ok m, registry') := by
  cases hdraft : b.draft r with
  | error e => exact .inl ⟨e, rfl, by rw [resource, hdraft]⟩
  | ok d =>
    obtain ⟨hmodel, hresponse⟩ := textNames_of_draft hd hr hdraft
    obtain ⟨model, between, hnamed⟩ := Field.nameStructs_ok hmodel registry
    obtain ⟨response, after, hreturned⟩ := Field.nameStructs_ok hresponse between
    obtain ⟨m, hm⟩ := finish_ok (b := b) hr d model response
    exact .inr ⟨d, m, after, rfl, by simp only [resource, hdraft, hnamed, hreturned, hm]⟩

theorem dataSource_cases (hd : b.document.Regular) (hs : s.Typed) (registry : NameRegistry) :
    (∃ e, b.dataSourceDraft s = .error e ∧ b.dataSource s registry = (.error e, registry)) ∨
      ∃ d m registry', b.dataSourceDraft s = .ok d ∧
        b.dataSource s registry = (.ok m, registry') := by
  cases hdraft : b.dataSourceDraft s with
  | error e => exact .inl ⟨e, rfl, by rw [dataSource, hdraft]⟩
  | ok d =>
    obtain ⟨name, fields, filters⟩ := d
    have htexts := textNames_of_dataSourceDraft hd hdraft
    obtain ⟨model, between, hnamed⟩ := Field.nameStructs_ok htexts registry
    obtain ⟨response, after, hreturned⟩ := Field.nameStructs_ok htexts between
    obtain ⟨m, hm⟩ := finishDataSource_ok (b := b) hs name filters model response
    exact .inr ⟨_, m, after, rfl, by simp only [dataSource, hdraft, hnamed, hreturned, hm]⟩

/-- A definition fails only at what stops it, and then leaves the registry as it was. -/
theorem stopsAt_of_definition (hd : b.document.Regular) {d : Definition} (hdef : d.Typed)
    {registry registry' : NameRegistry} {e : Failure}
    (h : b.definition d registry = (.error e, registry')) :
    registry' = registry ∧ b.StopsAt d e := by
  cases d with
  | resource r =>
    rcases resource_cases hd hdef registry with ⟨e', hdraft, hrun⟩ | ⟨_, _, _, -, hrun⟩
    · cases hrun.symm.trans h
      exact ⟨rfl, draft_failsOnly hd hdef e hdraft⟩
    · cases hrun.symm.trans h
  | dataSource s =>
    rcases dataSource_cases hd hdef registry with ⟨e', hdraft, hrun⟩ | ⟨_, _, _, -, hrun⟩
    · cases hrun.symm.trans h
      exact ⟨rfl, dataSourceDraft_failsOnly hd hdef e hdraft⟩
    · cases hrun.symm.trans h

/-! ## Runs -/

/-- A run fails at the first definition that does, with the registry that it leaves. -/
theorem buildEach_eq_error_iff {definitions : List Definition} :
    ∀ {registry registry' : NameRegistry} {e : Failure},
      b.buildEach registry definitions = (.error e, registry') ↔
        ∃ before d after models between cause, definitions = before ++ d :: after ∧
          b.buildEach registry before = (.ok models, between) ∧
          b.definition d between = (.error cause, registry') ∧ e = cause.underName d.name := by
  induction definitions with
  | nil => simp [buildEach]
  | cons d rest ih =>
    intro registry registry' e
    rw [buildEach]
    constructor
    · intro h
      split at h
      · rename_i cause after hfirst
        cases h
        exact ⟨[], d, rest, [], registry, cause, rfl, rfl, hfirst, rfl⟩
      · rename_i m between hm
        split at h
        · rename_i e' _ hrest
          cases h
          obtain ⟨before, d', after, models, between, cause, rfl, hbefore, hd', he⟩ := ih.1 hrest
          refine ⟨d :: before, d', after, m :: models, between, cause, rfl, ?_, hd', he⟩
          simp only [buildEach, hm, hbefore]
        · cases h
    · rintro ⟨before, d', after, models, between, cause, heq, hbefore, hd', rfl⟩
      cases before with
      | nil =>
        cases heq
        cases hbefore
        rw [hd']
      | cons d'' before =>
        cases heq
        rw [buildEach] at hbefore
        split at hbefore
        · cases hbefore
        · rename_i m middle hm
          split at hbefore
          · cases hbefore
          · rename_i hmodels
            cases hbefore
            have hrest := ih.2 ⟨before, d', after, _, between, cause, rfl, hmodels, hd', rfl⟩
            simp only [hrest]

end Builder

end ApiModels
