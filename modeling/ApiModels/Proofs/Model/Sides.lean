/-
ApiModels.Proofs.Model.Sides — what holds of the fields of each side of a
resource.

A field of a side is extracted from one of the schemas that its definition
reads (`Builder.ReadFrom`), or it is a plain one that the configuration or
the plugin adds, under a name of its own (`Structural`). A statement that
holds of both (`Builder.Made`) holds of
what creation accepts (`Made.create`). `Builder.Kept` is what it needs so
that it holds of all sides, before and after they are merged (`Kept.model`).
-/
import ApiModels.Model.Run
import ApiModels.Proofs.Extract.Walk
import ApiModels.Proofs.Field.Status

namespace ApiModels

/-! ## The schemas of operations -/

namespace Document

variable {d : Document} {id node : Value}

theorem mem_of_operation {o : Operation} (h : d.operation id = .ok o) : o ∈ d.operations := by
  simp only [operation, find?, Result.bind_eq_ok] at h
  obtain ⟨found, ⟨key, -, hfind⟩, h⟩ := h
  cases hfind
  split at h
  · rename_i o' hsome
    cases h
    exact List.mem_of_find?_eq_some hsome
  · cases h

theorem requestSchema_spec (h : d.requestSchema id = .ok node) : d.Schema node := by
  simp only [requestSchema, Result.bind_eq_ok] at h
  obtain ⟨o, ho, ⟨found, n⟩, hbody, h⟩ := h
  split at h
  · cases h
  · cases h
  · rename_i body _ hfound
    rw [Result.bind_eq_ok] at h
    obtain ⟨schema, hschema, h⟩ := h
    cases hfound
    split at h
    · cases h
    · cases h
      exact .request (mem_of_operation ho) hbody hschema

theorem firstResponseSchema_spec {responses : Members} :
    ∀ {codes : List (String × Int)},
      d.firstResponseSchema responses codes = .ok (some node) →
      ∃ code ∈ codes, ∃ body n, d.resolve (responseFor responses code) = .ok ⟨some body, n⟩ ∧
        bodySchema body = .ok node ∧ node ≠ .null
  | [], h => by cases h
  | code :: rest, h => by
    have later : d.firstResponseSchema responses rest = .ok (some node) →
        ∃ c ∈ code :: rest, ∃ body n, d.resolve (responseFor responses c) = .ok ⟨some body, n⟩ ∧
          bodySchema body = .ok node ∧ node ≠ .null := by
      intro h
      obtain ⟨c, hc, hbody⟩ := firstResponseSchema_spec h
      exact ⟨c, List.mem_cons_of_mem _ hc, hbody⟩
    rw [firstResponseSchema, Result.bind_eq_ok] at h
    obtain ⟨⟨found, n⟩, hbody, h⟩ := h
    split at h
    · exact later h
    · exact later h
    · rename_i body _ hfound
      rw [Result.bind_eq_ok] at h
      obtain ⟨schema, hschema, h⟩ := h
      cases hfound
      split at h
      · exact later h
      · rename_i hnull
        cases h
        exact ⟨code, List.mem_cons_self, body, n, hbody, hschema, hnull⟩

/-- The schema of a response is that of the body of a response on success. -/
theorem exists_body_of_responseSchema (h : d.responseSchema id = .ok node) :
    ∃ o, d.operation id = .ok o ∧ ∃ responses,
      (o.spec.get "responses").membersOrNone = .ok responses ∧ ∃ code ∈ successCodes, ∃ body n,
        d.resolve (responseFor responses code) = .ok ⟨some body, n⟩ ∧
        bodySchema body = .ok node ∧ node ≠ .null := by
  simp only [responseSchema, Result.bind_eq_ok] at h
  obtain ⟨o, ho, responses, hresponses, found, hfound, h⟩ := h
  cases found with
  | none => cases h
  | some schema =>
    cases h
    exact ⟨o, ho, responses, hresponses, firstResponseSchema_spec hfound⟩

theorem responseSchema_spec (h : d.responseSchema id = .ok node) : d.Schema node := by
  obtain ⟨o, ho, responses, hresponses, code, hcode, body, n, hbody, hschema, -⟩ :=
    exists_body_of_responseSchema h
  exact .response (mem_of_operation ho) hresponses hcode hbody hschema

end Document

namespace Builder

/-! ## The schemas of a definition -/

/-- A schema that the fields of a definition are read from. -/
inductive ReadFrom (b : Builder) : Definition → Value → Prop where
  | created {r node} (hplugin : Plugin.ofValue r.plugin = .ok .standard)
      (h : b.document.requestSchema r.createId = .ok node) : ReadFrom b (.resource r) node
  | ordered {r offering node} (hplugin : Plugin.ofValue r.plugin = .ok .order)
      (hoffering : r.offeringType.asText = .ok offering)
      (h : b.document.schema (.text (offeringSchema offering)) = .ok node) :
      ReadFrom b (.resource r) node
  | linked {r node} (hplugin : Plugin.ofValue r.plugin = .ok .link)
      (h : b.document.requestSchema r.linkOp = .ok node) : ReadFrom b (.resource r) node
  | returned {r node} (h : b.document.responseSchema
      (ResourceSettings.derivedId r.baseOperationId "retrieve") = .ok node) :
      ReadFrom b (.resource r) node
  | shown {s node} (h : b.document.responseSchema
      (ResourceSettings.derivedId s.baseOperationId "retrieve") = .ok node) :
      ReadFrom b (.dataSource s) node
  | listed {s list schema n node} (h : b.document.responseSchema
      (ResourceSettings.derivedId s.baseOperationId "list") = .ok list)
      (hresolve : b.document.resolve list = .ok ⟨some schema, n⟩)
      (hitems : Members.get? schema "items" = some node) : ReadFrom b (.dataSource s) node

theorem ReadFrom.schema {b : Builder} {d : Definition} {node : Value} (h : b.ReadFrom d node) :
    b.document.Schema node := by
  cases h with
  | created _ h | linked _ h => exact Document.requestSchema_spec h
  | ordered _ _ h => exact .component h
  | returned h | shown h => exact Document.responseSchema_spec h
  | listed h hresolve hitems =>
    have hschema := Document.Schema.items (Document.responseSchema_spec h) hresolve
    rwa [Members.get, hitems] at hschema

/-! ## Fields that no schema has -/

/-- The names of fields that the plugin or the configuration of a resource adds. -/
inductive Structural (r : ResourceSettings) : Scalar → Prop where
  | common {f} (hplugin : Plugin.ofValue r.plugin = .ok .order) (hf : f ∈ orderCommonFields) :
      Structural r f.name
  | termination {p name} (hplugin : Plugin.ofValue r.plugin = .ok .order)
      (hp : p ∈ r.terminationAttributes) (hname : p.name.key = .ok name) : Structural r name
  | endpoint {p name} (hplugin : Plugin.ofValue r.plugin = .ok .link)
      (hp : p ∈ endpointParams r) (hname : p.1.key = .ok name) : Structural r name
  | linkParam {p name} (hplugin : Plugin.ofValue r.plugin = .ok .link)
      (hp : p ∈ r.linkParams) (hname : p.name.key = .ok name) : Structural r name
  | pathParam {c p name} (hc : r.createOperation = some c) (hp : p ∈ c.pathParams)
      (hname : p.2.key = .ok name) : Structural r name

end Builder

/-- The names of fields that are added for a definition; for a data source there are none. -/
def Definition.Structural : Definition → Scalar → Prop
  | .resource r => Builder.Structural r
  | .dataSource _ => fun _ => False

namespace Builder

/-- The keys of values, each with its value. -/
theorem forall₂_keys {values : List Value} :
    ∀ {keys : List Scalar}, Value.keys values = .ok keys →
      List.Forall₂ (fun v key => v.key = .ok key) values keys := by
  induction values with
  | nil =>
    intro keys h
    cases h
    exact .nil
  | cons w ws ih =>
    intro keys h
    simp only [Value.keys, Result.bind_eq_ok] at h
    obtain ⟨key, hkey, rest, hrest, h⟩ := h
    cases h
    exact .cons hkey (ih hrest)

theorem exists_value_of_mem_keys {values : List Value} {keys : List Scalar}
    (h : Value.keys values = .ok keys) (key : Scalar) (hkey : key ∈ keys) :
    ∃ v ∈ values, v.key = .ok key := by
  obtain ⟨i, hi, rfl⟩ := List.mem_iff_getElem.1 hkey
  have hpairs := forall₂_keys h
  have hi' : i < values.length := hpairs.length_eq ▸ hi
  exact ⟨values[i], List.getElem_mem hi', hpairs.get hi' hi⟩

theorem exists_key_of_mem {values : List Value} {keys : List Scalar}
    (h : Value.keys values = .ok keys) (v : Value) (hv : v ∈ values) :
    ∃ key ∈ keys, v.key = .ok key := by
  obtain ⟨i, hi, rfl⟩ := List.mem_iff_getElem.1 hv
  have hpairs := forall₂_keys h
  have hi' : i < keys.length := hpairs.length_eq ▸ hi
  exact ⟨keys[i], List.getElem_mem hi', hpairs.get hi hi'⟩

theorem mem_keys_iff {values : List Value} {keys : List Scalar}
    (h : Value.keys values = .ok keys) {key : Scalar} :
    key ∈ keys ↔ ∃ v ∈ values, v.key = .ok key := by
  constructor
  · exact exists_value_of_mem_keys h key
  · rintro ⟨v, hv, hkey⟩
    obtain ⟨k, hk, hvk⟩ := exists_key_of_mem h v hv
    cases hkey.symm.trans hvk
    exact hk

theorem structural_pathParams {r : ResourceSettings} {names : List Scalar}
    (h : pathParamNames r = .ok names) : ∀ name ∈ names, Structural r name := by
  unfold pathParamNames at h
  split at h
  · rename_i c hc
    intro name hname
    obtain ⟨v, hv, hkey⟩ := exists_value_of_mem_keys h name hname
    obtain ⟨p, hp, rfl⟩ := List.mem_map.1 hv
    exact .pathParam hc hp hkey
  · cases h
    exact nofun

/-! ## Statements that building keeps -/

/-- The descriptions of fields that no schema states. -/
def ownDescriptions : List String :=
  ["Termination attribute", "Link parameter", "Source resource UUID", "Target resource UUID",
    "Required path parameter"] ++ orderCommonFields.map fun f => f.description

/-- A field without parts, of which nothing but its name and type comes from anywhere. -/
structure Plain (info : FieldInfo) : Prop where
  kind : info.kind ≠ .object
  itemType : info.itemType ≠ some .object
  values : info.kind = .map → ∃ t, info.itemType = some t ∧ t.isScalar = true
  refName : info.refName = ""
  unnamed : info.attrTypeRef = ""
  unskipped : info.schemaSkip = false
  description : info.description ∈ ownDescriptions

theorem Plain.fits {info : FieldInfo} (h : Plain info) : (Field.leaf info).Fits :=
  ⟨by simp [Field.leaf, h.itemType], nofun, by simp [Field.leaf]⟩

/-- What holds of fields that are extracted from some schemas, and of plain ones of some names. -/
structure Made (b : Builder) (S : Value → Prop) (A : Scalar → Prop) (T : Field → Prop) : Prop where
  extracted : ∀ node fields, S node → b.extractor.extract node = .ok fields → ∀ f ∈ fields, T f
  plain : ∀ info, Plain info → A info.name → T (.leaf info)

/-- What holds of extracted and plain fields, and still does when flags change and fields join. -/
structure Kept (b : Builder) (d : Definition) (T : Field → Prop) : Prop
    extends Made b (b.ReadFrom d) d.Structural T where
  info : ∀ (f : Field) info, T f → Field.worded info = Field.worded f.toFieldInfo →
    T { f with toFieldInfo := info }
  join : ∀ f g, f.name.same g.name = true → T f → T g → T (Field.join f g)
  joinOrder : ∀ f g, f.name.same g.name = true → T f → T g → T (Field.joinOrder f g)

/-- Statements about fields and about all their parts that joins keep are kept together. -/
theorem kept_of_joinable {b : Builder} {d : Definition} {P Q : Field → Prop}
    (hP : Field.Joinable P) (hQ : Field.Joinable Q) (hfits : ∀ f, P f → f.Fits)
    (hextracted : ∀ node fields, b.document.Schema node → b.extractor.extract node = .ok fields →
      ∀ f ∈ fields, Q f ∧ Field.Everywhere P f)
    (hplain : ∀ info, Plain info → d.Structural info.name → Q (.leaf info) ∧ P (.leaf info)) :
    b.Kept d fun f => Q f ∧ Field.Everywhere P f where
  extracted := fun node fields hnode => hextracted node fields hnode.schema
  plain := by
    intro info hinfo hname
    obtain ⟨hQ, hP⟩ := hplain info hinfo hname
    exact ⟨hQ, .intro hP nofun (by simp [Field.leaf])⟩
  info := by
    intro f info hf heq
    have houtline := congrArg Field.outline heq
    have hskip := congrArg FieldInfo.schemaSkip heq
    exact ⟨hQ f f _ hf.1 hf.1 (.info houtline hskip),
      Field.everywhere_info hP hf.2 houtline hskip⟩
  join := fun f g _ hf hg =>
    ⟨hQ f g _ hf.1 hg.1 (Field.joins_join f g), Field.everywhere_join hP hf.2 hg.2⟩
  joinOrder := fun f g _ hf hg =>
    ⟨hQ f g _ hf.1 hg.1 (Field.joins_joinOrder f g),
      Field.everywhere_joinOrder hP hfits hf.2 hg.2⟩

/-- The fields of a request are extracted from its schema; without one there are none. -/
theorem requestFields_eq_ok {b : Builder} {id : Value} {fields : List Field}
    (h : b.requestFields id = .ok fields) : fields = [] ∨
      ∃ node, b.document.requestSchema id = .ok node ∧ b.extractor.extract node = .ok fields := by
  unfold requestFields at h
  split at h
  · rename_i node hnode
    exact .inr ⟨node, hnode, h⟩
  · exact .inl (Except.ok.inj h).symm
  · cases h

/-- The fields of a data source are extracted from a schema; without one there are none. -/
theorem dataSourceFields_eq_ok {b : Builder} {s : DataSourceSettings} {fields : List Field}
    (h : b.dataSourceFields s.baseOperationId = .ok fields) : fields = [] ∨
      ∃ node, b.ReadFrom (.dataSource s) node ∧ b.extractor.extract node = .ok fields := by
  unfold dataSourceFields at h
  split at h
  · rename_i node hnode
    exact .inr ⟨node, .shown hnode, h⟩
  · unfold listItemFields at h
    split at h
    · exact .inl (Except.ok.inj h).symm
    · cases h
    · rename_i node hnode
      rw [Result.bind_eq_ok] at h
      obtain ⟨⟨found, n⟩, hresolve, h⟩ := h
      cases found with
      | none => exact .inl (Except.ok.inj h).symm
      | some list =>
        simp only [Result.bind_eq_ok] at h
        obtain ⟨type, -, h⟩ := h
        split at h
        · rename_i items hitems
          exact .inr ⟨items, .listed hnode hresolve hitems, h⟩
        · exact .inl (Except.ok.inj h).symm
  · cases h

namespace Made

variable {b : Builder} {S S' : Value → Prop} {A A' : Scalar → Prop} {T : Field → Prop}

theorem mono (h : b.Made S A T) (hS : ∀ node, S' node → S node) (hA : ∀ name, A' name → A name) :
    b.Made S' A' T :=
  ⟨fun node fields hnode => h.extracted node fields (hS node hnode),
    fun info hinfo hname => h.plain info hinfo (hA _ hname)⟩

theorem extract_of_request (h : b.Made S A T) {id : Value} {fields : List Field}
    (hread : ∀ node, b.document.requestSchema id = .ok node → S node)
    (hfields : b.requestFields id = .ok fields) : ∀ f ∈ fields, T f := by
  obtain rfl | ⟨node, hnode, hextracted⟩ := requestFields_eq_ok hfields
  · exact nofun
  · exact h.extracted node fields (hread node hnode) hextracted

end Made

/-! ## Fields for names -/

/-- Adds a field for each of some names, unless one of its name is there. -/
def addEach : List (Value × (Scalar → Field)) → List Field → Result (List Field)
  | [], fields => .ok fields
  | (name, make) :: rest, fields => do addEach rest (← addField fields name make)

theorem addParameters_eq (description : String) (params : List ParameterSettings) :
    ∀ fields : List Field, addParameters description params fields =
      addEach (params.map fun p => (p.name, fun name =>
        Field.ofParameter name (p.type.text?.getD "") description false)) fields := by
  induction params with
  | nil => exact fun _ => rfl
  | cons p rest ih =>
    intro fields
    simp only [addParameters, List.map_cons, addEach, ih]

theorem addEndpoints_eq (params : List (Value × String)) :
    ∀ fields : List Field, addEndpoints params fields =
      addEach (params.map fun p => (p.1, fun name =>
        .leaf { name := name, description := p.2, required := true })) fields := by
  induction params with
  | nil => exact fun _ => rfl
  | cons p rest ih =>
    intro fields
    simp only [addEndpoints, List.map_cons, addEach, ih]

theorem addField_eq_ok {fields fields' : List Field} {name : Value} {make : Scalar → Field}
    (h : addField fields name make = .ok fields') :
    ∃ key, name.key = .ok key ∧
      fields' = if key.isAmong (Field.names fields) then fields else fields ++ [make key] := by
  rw [addField, Result.bind_eq_ok] at h
  obtain ⟨key, hkey, h⟩ := h
  refine ⟨key, hkey, ?_⟩
  split at h <;> rename_i hamong <;> cases h
  · exact (if_pos hamong).symm
  · exact (if_neg hamong).symm

/-- What holds of all fields and of all that are made holds of what comes out. -/
theorem forall_addEach {T : Field → Prop} {makes : List (Value × (Scalar → Field))} :
    ∀ {fields fields' : List Field}, (∀ m ∈ makes, ∀ key, m.1.key = .ok key → T (m.2 key)) →
      addEach makes fields = .ok fields' → (∀ f ∈ fields, T f) → ∀ f ∈ fields', T f := by
  induction makes with
  | nil =>
    intro fields fields' _ h hfields
    cases h
    exact hfields
  | cons m rest ih =>
    intro fields fields' hmakes h hfields
    obtain ⟨hmake, hrest⟩ := List.forall_mem_cons.1 hmakes
    rw [addEach, Result.bind_eq_ok] at h
    obtain ⟨added, hadded, h⟩ := h
    obtain ⟨key, hkey, rfl⟩ := addField_eq_ok hadded
    refine ih hrest h ?_
    split
    · exact hfields
    · exact List.forall_mem_append.2 ⟨hfields, List.forall_mem_singleton.2 (hmake key hkey)⟩

theorem subset_addEach {makes : List (Value × (Scalar → Field))} :
    ∀ {fields fields' : List Field}, addEach makes fields = .ok fields' → fields ⊆ fields' := by
  induction makes with
  | nil =>
    intro fields fields' h
    cases h
    exact List.Subset.refl _
  | cons m rest ih =>
    intro fields fields' h
    rw [addEach, Result.bind_eq_ok] at h
    obtain ⟨added, hadded, h⟩ := h
    obtain ⟨key, -, rfl⟩ := addField_eq_ok hadded
    refine List.Subset.trans ?_ (ih h)
    split
    · exact List.Subset.refl _
    · exact List.subset_append_left _ _

theorem ofParameter_plain (name : Scalar) (typeName : String) {description : String}
    (hdescription : description ∈ ownDescriptions) (required : Bool) :
    ∃ info, Field.ofParameter name typeName description required = .leaf info ∧
      Plain info ∧ info.name = name := by
  unfold Field.ofParameter
  cases SemanticType.ofName typeName with
  | object =>
    exact ⟨_, rfl, ⟨nofun, nofun, fun _ => ⟨.string, rfl, rfl⟩, rfl, rfl, rfl, hdescription⟩, rfl⟩
  | _ => exact ⟨_, rfl, ⟨nofun, nofun, nofun, rfl, rfl, rfl, hdescription⟩, rfl⟩

section

variable {A : Scalar → Prop} {T : Field → Prop}

theorem forall_addParameters (hplain : ∀ info, Plain info → A info.name → T (.leaf info))
    {description : String} (hdescription : description ∈ ownDescriptions)
    {params : List ParameterSettings} (hparams : ∀ p ∈ params, ∀ key, p.name.key = .ok key → A key)
    {fields fields' : List Field} (h : addParameters description params fields = .ok fields')
    (hfields : ∀ f ∈ fields, T f) : ∀ f ∈ fields', T f := by
  rw [addParameters_eq] at h
  refine forall_addEach (List.forall_mem_map.2 fun p hp key hkey => ?_) h hfields
  obtain ⟨info, heq, hinfo, hname⟩ :=
    ofParameter_plain key (p.type.text?.getD "") hdescription false
  have hleaf := hplain info hinfo (hname ▸ hparams p hp key hkey)
  rwa [← heq] at hleaf

/-- A parameter for the ends of a link is that of one of them, with one of the own descriptions. -/
theorem endpointParams_cases {r : ResourceSettings} {p : Value × String}
    (hp : p ∈ endpointParams r) :
    (∃ e, (r.source = some e ∨ r.target = some e) ∧ p.1 = e.param) ∧ p.2 ∈ ownDescriptions := by
  unfold endpointParams at hp
  rcases List.mem_append.1 hp with hp | hp
  all_goals
    beta_reduce at hp
    split at hp
    · rename_i e he
      split at hp
      · cases List.mem_singleton.1 hp
        refine ⟨⟨e, by simp [he], rfl⟩, ?_⟩
        dsimp only
        decide
      · cases hp
    · cases hp

theorem endpointParams_described (r : ResourceSettings) :
    ∀ p ∈ endpointParams r, p.2 ∈ ownDescriptions :=
  fun _ hp => (endpointParams_cases hp).2

theorem forall_addEndpoints (hplain : ∀ info, Plain info → A info.name → T (.leaf info))
    {params : List (Value × String)} (hdescriptions : ∀ p ∈ params, p.2 ∈ ownDescriptions)
    (hparams : ∀ p ∈ params, ∀ key, p.1.key = .ok key → A key) {fields fields' : List Field}
    (h : addEndpoints params fields = .ok fields')
    (hfields : ∀ f ∈ fields, T f) : ∀ f ∈ fields', T f := by
  rw [addEndpoints_eq] at h
  refine forall_addEach (List.forall_mem_map.2 fun p hp key hkey => ?_) h hfields
  exact hplain _ ⟨nofun, nofun, nofun, rfl, rfl, rfl, hdescriptions p hp⟩ (hparams p hp key hkey)

end

theorem orderCommonFields_plain :
    ∀ f ∈ orderCommonFields, ∃ info, f = .leaf info ∧ Plain info := by
  unfold orderCommonFields
  simp only [List.forall_mem_cons]
  have hlimits : ∃ t, some SemanticType.number = some t ∧ t.isScalar = true := ⟨_, rfl, rfl⟩
  refine ⟨?_, ?_, ?_, ⟨_, rfl, nofun, nofun, fun _ => hlimits, rfl, rfl, rfl, by decide⟩, ?_, ?_,
    nofun⟩ <;>
  exact ⟨_, rfl, nofun, nofun, nofun, rfl, rfl, rfl, by decide⟩

theorem requestFields_of_standard {b : Builder} {r : ResourceSettings} {fields : List Field}
    (h : b.createFields r .standard = .ok fields) : b.requestFields r.createId = .ok fields := by
  simp only [createFields, Result.bind_eq_ok] at h
  obtain ⟨extracted, hextracted, h⟩ := h
  -- An operation without fields is told before they are given.
  have hsame : extracted = fields := by
    split at h
    · obtain ⟨_, -, h⟩ := Result.bind_eq_ok.1 h
      exact Except.ok.inj h
    · exact Except.ok.inj h
  exact hsame ▸ hextracted

/-- A link returns the walked fields, with those for its ends marked, or states nothing of them. -/
theorem responseFields_of_link {b : Builder} {r : ResourceSettings} {fields : List Field}
    (h : b.responseFields r .link = .ok fields) :
    fields = [] ∨ ∃ node walked ends,
      b.document.responseSchema (ResourceSettings.derivedId r.baseOperationId "retrieve") =
        .ok node ∧ b.extractor.extract node = .ok walked ∧
      Value.keys ((endpointParams r).map Prod.fst) = .ok ends ∧
      fields = markEndpoints ends walked := by
  simp only [responseFields] at h
  split at h
  · rename_i node hnode
    simp only [Result.bind_eq_ok] at h
    obtain ⟨walked, hwalked, ends, hends, h⟩ := h
    cases h
    exact .inr ⟨node, walked, ends, hnode, hwalked, hends, rfl⟩
  · cases h
    exact .inl rfl
  · cases h

/-- What a resource that is no link returns is walked from the schema of its response. -/
theorem responseFields_walked {b : Builder} {r : ResourceSettings} {plugin : Plugin}
    {fields : List Field} (h : b.responseFields r plugin = .ok fields) (hlink : plugin ≠ .link) :
    ∃ node,
      b.document.responseSchema (ResourceSettings.derivedId r.baseOperationId "retrieve") =
        .ok node ∧ b.extractor.extract node = .ok fields := by
  cases plugin with
  | link => exact absurd rfl hlink
  | standard | order => exact Result.bind_eq_ok.1 h

theorem pathParamField_plain (name : Scalar) :
    ∃ info, pathParamField name = .leaf info ∧ Plain info ∧ info.name = name := by
  have hdescription : "Required path parameter" ∈ ownDescriptions := by decide
  exact ⟨_, rfl, ⟨nofun, nofun, nofun, rfl, rfl, rfl, hdescription⟩, rfl⟩

/-- What holds of all fields and of those for path parameters holds of what is accepted. -/
theorem forall_acceptPathParams {T : Field → Prop} {names : List Scalar}
    (hnames : ∀ name ∈ names, T (pathParamField name)) :
    ∀ {fields : List Field}, (∀ f ∈ fields, T f) →
      ∀ f ∈ names.foldl acceptPathParam fields, T f := by
  intro fields hfields
  refine List.foldlRecOn (motive := fun kept => ∀ f ∈ kept, T f) names acceptPathParam hfields ?_
  intro kept hkept name hname
  unfold acceptPathParam
  split
  · exact hkept
  · exact List.forall_mem_append.2 ⟨hkept, List.forall_mem_singleton.2 (hnames name hname)⟩

namespace Made

variable {b : Builder} {S : Value → Prop} {A : Scalar → Prop} {T : Field → Prop}
  {r : ResourceSettings} {plugin : Plugin}

theorem create (h : b.Made (b.ReadFrom (.resource r)) (Structural r) T)
    (hplugin : Plugin.ofValue r.plugin = .ok plugin) {fields : List Field}
    (hfields : b.createFields r plugin = .ok fields) : ∀ f ∈ fields, T f := by
  cases plugin with
  | standard =>
    exact h.extract_of_request (fun _ => .created hplugin) (requestFields_of_standard hfields)
  | order =>
    simp only [createFields, Result.bind_eq_ok] at hfields
    obtain ⟨offering, hoffering, node, hnode, extracted, hextracted, hfields⟩ := hfields
    cases hfields
    intro f hf
    rcases List.mem_append.1 hf with hf | hf
    · exact h.extracted node extracted (.ordered hplugin hoffering hnode) hextracted f hf
    · have hcommon := (List.mem_filter.1 hf).1
      obtain ⟨info, rfl, hinfo⟩ := orderCommonFields_plain f hcommon
      exact h.plain info hinfo (.common hplugin hcommon)
  | link =>
    simp only [createFields, Result.bind_eq_ok] at hfields
    obtain ⟨extracted, hextracted, ends, hends, hfields⟩ := hfields
    have hbody := h.extract_of_request (fun _ => .linked hplugin) hextracted
    refine forall_addParameters h.plain (by decide) (fun p hp _ => .linkParam hplugin hp) hfields ?_
    exact forall_addEndpoints h.plain (endpointParams_described r)
      (fun p hp _ => .endpoint hplugin hp) hends hbody

theorem update (h : b.Made (fun _ => True) A T) {fields : List Field}
    (hfields : b.updateFields r plugin = .ok fields) : ∀ f ∈ fields, T f := by
  cases plugin with
  | link =>
    cases hfields
    exact nofun
  | standard | order => exact h.extract_of_request (fun _ _ => trivial) hfields

theorem acceptPathParams (h : b.Made S A T) {names : List Scalar}
    (hnames : ∀ name ∈ names, A name) :
    ∀ {fields : List Field}, (∀ f ∈ fields, T f) →
      ∀ f ∈ names.foldl acceptPathParam fields, T f := by
  refine forall_acceptPathParams fun name hname => ?_
  obtain ⟨info, heq, hinfo, rfl⟩ := pathParamField_plain name
  exact heq ▸ h.plain info hinfo (hnames _ hname)

end Made

namespace Kept

variable {b : Builder} {T : Field → Prop} {r : ResourceSettings} {plugin : Plugin}

theorem response (h : b.Kept (.resource r) T) {fields : List Field}
    (hfields : b.responseFields r plugin = .ok fields) : ∀ f ∈ fields, T f := by
  cases plugin with
  | link =>
    rcases responseFields_of_link hfields with rfl | ⟨node, walked, ends, hnode, hwalked, -, rfl⟩
    · exact List.forall_mem_nil _
    · intro f hf
      obtain ⟨g, hg, rfl⟩ := List.mem_map.1 hf
      have hT := h.extracted node walked (.returned hnode) hwalked g hg
      split
      · exact h.info g _ hT rfl
      · exact hT
  | standard | order =>
    obtain ⟨node, hnode, hwalked⟩ := responseFields_walked hfields (by decide)
    exact h.extracted node fields (.returned hnode) hwalked

theorem merged {d : Definition} (h : b.Kept d T) {create response : List Field}
    (hcreate : ∀ f ∈ create, T f) (hresponse : ∀ f ∈ response, T f) :
    ∀ f ∈ Field.merge create response, T f := by
  intro f hf
  rw [Field.merge, Field.mem_sortByName, Field.mergeInto_eq] at hf
  refine Field.forall_takeInto (fun f hf => hcreate f (Field.mem_byName hf)) ?_ hresponse f hf
  exact fun g hg f hsame hf => h.join f g hsame hf (hresponse g hg)

theorem mergedOrder (h : b.Kept (.resource r) T) (hplugin : Plugin.ofValue r.plugin = .ok .order)
    {create response : List Field} (hcreate : ∀ f ∈ create, T f) (hresponse : ∀ f ∈ response, T f) :
    ∀ f ∈ Field.mergeOrder create response, T f := by
  have hcommon : ∀ p ∈ Field.orderFields, p.2 ∈ ownDescriptions ∧
      ∃ f ∈ orderCommonFields, f.name = p.1 := by decide
  refine Field.forall_mergeOrder hcreate ?_ ?_ ?_ ?_
  · exact fun g hg f hsame hf => h.joinOrder f g hsame hf (hresponse g hg)
  · exact fun g hg => h.info g _ (hresponse g hg) rfl
  · exact fun f hf => h.info f _ hf rfl
  · intro p hp
    obtain ⟨hdescription, f, hf, hname⟩ := hcommon p hp
    exact h.plain _ ⟨nofun, nofun, nofun, rfl, rfl, rfl, hdescription⟩ (hname ▸ .common hplugin hf)

theorem model (h : b.Kept (.resource r) T) (hplugin : Plugin.ofValue r.plugin = .ok plugin)
    {create response fields : List Field} (hcreate : ∀ f ∈ create, T f)
    (hresponse : ∀ f ∈ response, T f)
    (hfields : modelFields r create response plugin = .ok fields) :
    ∀ f ∈ fields, T f := by
  cases plugin with
  | order =>
    exact forall_addParameters h.plain (by decide) (fun p hp _ => .termination hplugin hp) hfields
      (h.mergedOrder hplugin hcreate hresponse)
  | standard | link =>
    cases hfields
    exact h.merged hcreate hresponse

theorem demandPathParams {d : Definition} (h : b.Kept d T) {names : List Scalar}
    (hnames : ∀ name ∈ names, d.Structural name) :
    ∀ {fields : List Field}, (∀ f ∈ fields, T f) →
      ∀ f ∈ names.foldl demandPathParam fields, T f := by
  induction names with
  | nil => exact fun hfields => hfields
  | cons name rest ih =>
    obtain ⟨hname, hrest⟩ := List.forall_mem_cons.1 hnames
    intro fields hfields
    refine ih hrest ?_
    unfold demandPathParam
    split
    · rename_i f hf
      exact Field.forall_put hfields (h.info f _ (hfields f (List.mem_of_find?_eq_some hf)) rfl)
    · intro f hf
      rcases List.mem_append.1 hf with hf | hf
      · exact hfields f hf
      · obtain ⟨info, heq, hinfo, rfl⟩ := pathParamField_plain name
        exact (List.mem_singleton.1 hf).trans heq ▸ h.plain info hinfo hname

/-- What is kept holds of the fields of a data source. -/
theorem dataSource {s : DataSourceSettings} (h : b.Kept (.dataSource s) T) {fields : List Field}
    (hfields : b.dataSourceFields s.baseOperationId = .ok fields) : ∀ f ∈ fields, T f := by
  obtain rfl | ⟨node, hnode, hextracted⟩ := dataSourceFields_eq_ok hfields
  · exact nofun
  · exact h.extracted node fields hnode hextracted

end Kept

end Builder

end ApiModels
