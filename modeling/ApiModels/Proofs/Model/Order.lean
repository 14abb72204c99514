/-
ApiModels.Proofs.Model.Order — the flags of an order.

An order is created by the attributes of its offering and by fields that
every order has. Two of those, the project and the offering, must always be
given, whatever the document and the configuration say of them. The flags
of all others follow from what the input and the output have under their
names (`OrderFlags`), as long as the configuration does not step in.
-/
import ApiModels.Proofs.Model.TopLevel

namespace ApiModels

namespace Field

/-- The flags of a field of an order, from what its input and its output have under its name. -/
def OrderFlags : Option Field → Option Field → Field → Prop
  | some i, some _, f =>
    f.readOnly = i.readOnly ∧ f.serverComputed = (!i.required || i.readOnly) ∧
      f.required = (i.required && !i.readOnly)
  | some i, none, f =>
    f.readOnly = i.readOnly ∧ f.serverComputed = i.readOnly ∧
      f.required = (i.required && !i.readOnly)
  | none, some _, f => f.readOnly = true ∧ f.serverComputed = true ∧ f.required = false
  | none, none, f => f.readOnly = false ∧ f.serverComputed = true ∧ f.required = false

/-- What the sides have under a name, or else a parameter, becomes a field with these flags. -/
theorem OrderFlags.settled {input output param : Option Field} {updatable : List Scalar}
    {w f : Field} (hinput : ∀ i, input = some i → i.serverComputed = false)
    (houtput : ∀ o, output = some o → o.serverComputed = false)
    (hparam : ∀ p, param = some p →
      p.required = false ∧ p.readOnly = false ∧ p.serverComputed = false)
    (hw : (orderedField? input output).or param = some w)
    (heq : role f.toFieldInfo =
      role (settleInfo input.isSome (forcedInfo updatable [] w.toFieldInfo))) :
    OrderFlags input output f := by
  obtain ⟨hread, hcomputed, hrequired, -, -⟩ := flags_of_role_eq heq
  simp only [settleInfo, forcedInfo] at hread hcomputed hrequired
  cases input with
  | some i =>
    have hi := hinput i rfl
    cases output with
    | some o =>
      cases hw
      simp only [joinOrder_info, orderInfo, hi] at hread hcomputed hrequired
      refine ⟨hread, by simpa using hcomputed, ?_⟩
      rw [hrequired]
      cases i.required <;> simp
    | none =>
      cases hw
      simp only [hi] at hcomputed hrequired
      exact ⟨hread, by simpa using hcomputed, by simpa using hrequired⟩
  | none =>
    cases output with
    | some o =>
      cases hw
      exact ⟨hread, by simpa [outputOnly] using hcomputed, hrequired⟩
    | none =>
      obtain ⟨hrequired', hread', -⟩ := hparam w hw
      exact ⟨hread.trans hread', by simpa using hcomputed, by simpa [hrequired'] using hrequired⟩

end Field

namespace Builder

open ApiModels.Field (DistinctTexts Gains OrderFlags find? texts names orderNames)

variable {b : Builder} {r : ResourceSettings}

/-! ## The input of an order -/

theorem orderNames_eq : orderNames = [.text "project", .text "offering"] := rfl

theorem distinct_withOrderFields {fields : List Field} (hd : DistinctTexts fields) :
    DistinctTexts (withOrderFields fields) := by
  have hcommon : DistinctTexts orderCommonFields := by
    unfold DistinctTexts
    decide
  refine hd.append (hcommon.sublist (List.filter_sublist.filterMap _)) fun s hs hmem => ?_
  obtain ⟨f, hf, hname⟩ := Field.mem_texts.1 hs
  obtain ⟨g, hg, hgname⟩ := Field.mem_texts.1 hmem
  have hmissing := (List.mem_filter.1 hf).2
  rw [hname, Bool.not_eq_true', Bool.eq_false_iff, ne_eq, Scalar.isAmong_iff_of_isText rfl]
    at hmissing
  exact hmissing (hgname ▸ List.mem_map_of_mem hg)

theorem mem_texts_withOrderFields {fields : List Field} {s : String}
    (hs : .text s ∈ orderNames) : s ∈ texts (withOrderFields fields) := by
  rw [withOrderFields, Field.mem_texts_append]
  by_cases hmem : .text s ∈ names fields
  · obtain ⟨f, hf, hname⟩ := List.mem_map.1 hmem
    exact .inl (Field.mem_texts.2 ⟨f, hf, hname⟩)
  · obtain ⟨f, hf, hname⟩ : ∃ f ∈ orderCommonFields, f.name = .text s := by
      simp only [orderNames_eq, List.mem_cons, List.not_mem_nil, or_false] at hs
      rcases hs with hs | hs
      · exact ⟨_, .tail _ (.head _), hs.symm⟩
      · exact ⟨_, .head _, hs.symm⟩
    refine .inr (Field.mem_texts.2 ⟨f, List.mem_filter.2 ⟨hf, ?_⟩, hname⟩)
    rw [hname, Bool.not_eq_true', Bool.eq_false_iff, ne_eq, Scalar.isAmong_iff_of_isText rfl]
    exact hmem

theorem serverComputed_withOrderFields {fields : List Field}
    (h : ∀ f ∈ fields, f.serverComputed = false) :
    ∀ f ∈ withOrderFields fields, f.serverComputed = false := by
  have hcommon : ∀ f ∈ orderCommonFields, f.serverComputed = false := by decide
  intro f hf
  rcases List.mem_append.1 hf with hf | hf
  · exact h f hf
  · exact hcommon f (List.mem_filter.1 hf).1

namespace Drafting

variable {d : Draft}

/-- What the steps of an order give. -/
theorem order (s : Drafting b r d) (hplugin : d.plugin = .order) :
    (∃ offering schema attributes, r.offeringType.asText = .ok offering ∧
      b.document.schema (.text (offeringSchema offering)) = .ok schema ∧
      b.extractor.extract schema = .ok attributes ∧ s.create = withOrderFields attributes) ∧
    (∃ schema,
      b.document.responseSchema (ResourceSettings.derivedId r.baseOperationId "retrieve") =
        .ok schema ∧ b.extractor.extract schema = .ok s.response) ∧
    addParameters "Termination attribute" r.terminationAttributes
      (Field.mergeOrder s.create s.response) = .ok s.merged := by
  have hcreate := s.create_eq
  have hresponse := s.response_eq
  have hmerged := s.merged_eq
  rw [hplugin] at hcreate hresponse hmerged
  simp only [createFields, Result.bind_eq_ok] at hcreate
  obtain ⟨offering, hoffering, schema, hschema, attributes, hattributes, hcreate⟩ := hcreate
  exact ⟨⟨offering, schema, attributes, hoffering, hschema, hattributes,
    (Except.ok.inj hcreate).symm⟩, Result.bind_eq_ok.1 hresponse, hmerged⟩

/-- Under a name that every order has stands a field that must be given. -/
theorem demanded_order (s : Drafting b r d) (hplugin : d.plugin = .order) {t : String}
    (ht : .text t ∈ orderNames) :
    ∃ w, find? s.demanded (.text t) = some w ∧ w.required = true ∧ w.readOnly = false ∧
      w.serverComputed = false := by
  obtain ⟨-, -, hmerged⟩ := s.order hplugin
  obtain ⟨new, -, hgains, -⟩ := addParameters_spec hmerged
  obtain ⟨f, hf⟩ := Field.find?_mergeOrder_of_mem ht s.create s.response
  have hfound : find? s.merged (.text t) = some (Field.demanded f) := by
    rw [hgains.found, hf, Option.some_or]
  rw [demanded, find?_demandPathParams, hfound]
  split
  · exact ⟨_, rfl, rfl, rfl, rfl⟩
  · exact ⟨_, rfl, rfl, rfl, rfl⟩

/-- The project and the offering have one field each in the model, which must be given. -/
theorem demanded_modelField (s : Drafting b r d) (hs : s.LeadsTo) (hplugin : d.plugin = .order)
    {registry registry' : NameRegistry} {m : ResourceModel}
    (h : ComesOf d.modelFields d.responseFields registry registry' m) {t : String}
    (ht : .text t ∈ orderNames) :
    ∃ f, (m.modelFields.filter fun g => g.name.same (.text t)) = [f] ∧
      f.required = true ∧ f.readOnly = false ∧ f.serverComputed = false := by
  obtain ⟨w, hw, hrequired, hread, hcomputed⟩ := s.demanded_order hplugin ht
  obtain ⟨f, hf, hfname, hone⟩ := s.one_modelField hs h hw
  obtain ⟨t', w', ht', hw', hrole⟩ := s.found hs h List.mem_cons_self hf
  cases hfname.symm.trans ht'
  cases hw.symm.trans hw'
  obtain ⟨⟨_, _, attributes, -, -, -, hcreate⟩, -, -⟩ := s.order hplugin
  have haccepted : (Field.findLast? s.accepted (.text t)).isSome = true :=
    s.accepted_isSome_iff.2 (.inl (hcreate ▸ mem_texts_withOrderFields ht))
  obtain ⟨hread', hcomputed', hrequired', -, -⟩ := Field.flags_of_role_eq hrole
  simp only [Field.settleInfo, Field.forcedInfo, haccepted, hrequired, hread, hcomputed]
    at hread' hcomputed' hrequired'
  exact ⟨f, hone, hrequired', hread', hcomputed'⟩

/-- An order whose fields are made of an input, an output and parameters, and of nothing else. -/
structure OrderSides (s : Drafting b r d) (input output params : List Field) : Prop where
  accepted : s.accepted = input
  gains : Gains (Field.mergeOrder input output) params s.demanded
  distinctInput : DistinctTexts input
  distinctOutput : DistinctTexts output
  common : ∀ t, .text t ∈ orderNames → t ∈ texts input
  inputComputed : ∀ f ∈ input, f.serverComputed = false
  outputComputed : ∀ f ∈ output, f.serverComputed = false
  optional : ∀ f ∈ params, f.required = false ∧ f.readOnly = false ∧ f.serverComputed = false

/-- Where the configuration does not step in, these are what the document and the settings have. -/
theorem orderSides (s : Drafting b r d) (hplugin : d.plugin = .order)
    (hoverrides : b.extractor.policy.overrides = [])
    (hparams : ∀ c, r.createOperation = some c → c.pathParams = []) :
    ∃ offering schema attributes responseSchema output params,
      r.offeringType.asText = .ok offering ∧
      b.document.schema (.text (offeringSchema offering)) = .ok schema ∧
      b.extractor.extract schema = .ok attributes ∧
      b.document.responseSchema (ResourceSettings.derivedId r.baseOperationId "retrieve") =
        .ok responseSchema ∧
      b.extractor.extract responseSchema = .ok output ∧
      Value.keys (r.terminationAttributes.map fun a => a.name) = .ok (names params) ∧
      OrderSides s (withOrderFields attributes) output params := by
  obtain ⟨⟨offering, schema, attributes, hoffering, hschema, hattributes, hcreate⟩,
    ⟨responseSchema, hresponse, houtput⟩, hmerged⟩ := s.order hplugin
  obtain ⟨params, hkeys, hgains, hplain⟩ := addParameters_spec hmerged
  have hpath := s.pathParams_eq_nil hparams
  have hdemanded : s.demanded = s.merged := by rw [demanded, hpath, List.foldl_nil]
  have haccepted : s.accepted = s.create := by rw [accepted, hpath, List.foldl_nil]
  obtain ⟨⟨hdistinct, -⟩, huntouched⟩ := extract_sides hoverrides hattributes
  obtain ⟨⟨hdistinct', -⟩, huntouched'⟩ := extract_sides hoverrides houtput
  rw [hcreate, ← hdemanded] at hgains
  refine ⟨offering, schema, attributes, responseSchema, s.response, params, hoffering, hschema,
    hattributes, hresponse, houtput, hkeys, haccepted.trans hcreate, hgains,
    distinct_withOrderFields hdistinct, hdistinct', fun _ => mem_texts_withOrderFields,
    serverComputed_withOrderFields fun f hf => ?_, fun f hf => ?_, hplain⟩
  · exact (huntouched f hf).here.serverComputed
  · exact (huntouched' f hf).here.serverComputed

namespace OrderSides

variable {s : Drafting b r d} {input output params : List Field} {registry registry' : NameRegistry}
  {m : ResourceModel}

theorem mem_texts_demanded (h : OrderSides s input output params) {t : String} :
    t ∈ texts s.demanded ↔ t ∈ texts input ∨ t ∈ texts output ∨ t ∈ texts params := by
  rw [h.gains.mem_texts, Field.mem_texts_mergeOrder h.distinctInput h.distinctOutput]
  constructor
  · rintro ((hin | hout | hcommon) | hparam)
    · exact .inl hin
    · exact .inr (.inl hout)
    · exact .inl (h.common t hcommon)
    · exact .inr (.inr hparam)
  · rintro (hin | hout | hparam)
    · exact .inl (.inl hin)
    · exact .inl (.inr (.inl hout))
    · exact .inr hparam

/-- The names in the model are those of the input, the output and the parameters. -/
theorem mem_names (h : OrderSides s input output params) (hs : s.LeadsTo)
    (hcomes : ComesOf d.modelFields d.responseFields registry registry' m) {name : Scalar} :
    name ∈ names m.modelFields ↔
      name ∈ names input ∨ name ∈ names output ∨ name ∈ names params := by
  have hall := s.allTexts_demanded hs hcomes
  obtain ⟨hallOrder, hallParams⟩ := h.gains.allTexts hall
  obtain ⟨hallInput, hallOutput⟩ := Field.allTexts_mergeOrder.1 hallOrder
  rw [(s.names_modelFields hs hcomes).mem_iff, Field.mem_names_iff hall,
    Field.mem_names_iff hallInput, Field.mem_names_iff hallOutput, Field.mem_names_iff hallParams,
    ← exists_or, ← exists_or]
  refine exists_congr fun t => ?_
  rw [h.mem_texts_demanded, or_and_right, or_and_right]

/-- A field that not every order has is settled from what the sides have under its name. -/
theorem flags (h : OrderSides s input output params) (hs : s.LeadsTo)
    (hcomes : ComesOf d.modelFields d.responseFields registry registry' m) {f : Field}
    (hf : f ∈ m.modelFields) (hother : f.name ∉ orderNames) :
    OrderFlags (find? input f.name) (find? output f.name) f := by
  obtain ⟨t, w, ht, hw, hrole⟩ := s.found hs hcomes List.mem_cons_self hf
  rw [ht] at hother ⊢
  rw [h.gains.found, Field.find?_mergeOrder_of_not_mem h.distinctInput h.distinctOutput hother]
    at hw
  rw [h.accepted, Field.findLast?_text h.distinctInput] at hrole
  refine OrderFlags.settled ?_ ?_ ?_ hw hrole
  · exact fun i hi => h.inputComputed i (Field.find?_text_some hi).1
  · exact fun o ho => h.outputComputed o (Field.find?_text_some ho).1
  · exact fun p hp => h.optional p (Field.find?_text_some hp).1

end OrderSides

end Drafting

/-! ## Flags -/

/--
The flags of an order. The project and the offering, each there once, must always be given. Of the
other fields, the flags follow from the input and the output, if no overrides and no parameters of
the creation path are configured; names come from the two sides and the termination attributes.
-/
theorem flags_of_order (hplugin : Plugin.ofValue r.plugin = .ok .order)
    {registry registry' : NameRegistry} {m : ResourceModel}
    (h : b.resource r registry = (.ok m, registry')) :
    (∀ name ∈ ["project", "offering"], ∃ f,
      (m.modelFields.filter fun g => g.name.same (.text name)) = [f] ∧
      f.required = true ∧ f.readOnly = false ∧ f.serverComputed = false) ∧
    (b.extractor.policy.overrides = [] →
      (∀ c, r.createOperation = some c → c.pathParams = []) →
      ∃ offering schema attributes responseSchema output terms,
        r.offeringType.asText = .ok offering ∧
        b.document.schema (.text (offeringSchema offering)) = .ok schema ∧
        b.extractor.extract schema = .ok attributes ∧
        b.document.responseSchema (ResourceSettings.derivedId r.baseOperationId "retrieve") =
          .ok responseSchema ∧
        b.extractor.extract responseSchema = .ok output ∧
        Value.keys (r.terminationAttributes.map fun a => a.name) = .ok terms ∧
        (∀ name, name ∈ names m.modelFields ↔ name ∈ names (withOrderFields attributes) ∨
          name ∈ names output ∨ name ∈ terms) ∧
        ∀ f ∈ m.modelFields, f.name ∉ [.text "project", .text "offering"] →
          OrderFlags (find? (withOrderFields attributes) f.name) (find? output f.name) f) := by
  obtain ⟨d, hdraft, hcomes, -, -⟩ := resource_spec h
  obtain ⟨s, hs⟩ := draft_spec hdraft
  have horder := s.plugin_eq_of_ofValue hplugin
  constructor
  · intro name hname
    exact s.demanded_modelField hs horder hcomes (List.mem_map_of_mem hname)
  · intro hoverrides hparams
    obtain ⟨offering, schema, attributes, responseSchema, output, params, hoffering, hschema,
      hattributes, hresponse, houtput, hkeys, hsides⟩ := s.orderSides horder hoverrides hparams
    exact ⟨offering, schema, attributes, responseSchema, output, names params, hoffering, hschema,
      hattributes, hresponse, houtput, hkeys, fun _ => hsides.mem_names hs hcomes,
      fun f hf hother => hsides.flags hs hcomes hf hother⟩

/-! ## A small order

A volume is ordered by its size and returned with its owner and state; its termination takes a
parameter.
-/

namespace Sample

def volumeNode : Value :=
  .record [("properties", .record [("size", .record [("type", .text "integer")])]),
    ("required", .texts ["size"])]

def volumeDocument : Document where
  root :=
    [(.text "components",
      .record [("schemas", .record [("StorageVolumeCreateOrderAttributes", volumeNode)])])]
  operations :=
    [⟨.text "volume_retrieve", .text "/volumes/1/", "GET",
       [(.text "responses", .record [("200", json responseNode)])], []⟩]

def volumeSettings : ResourceSettings :=
  { settings with
    name := .text "volume"
    baseOperationId := .text "volume"
    plugin := .text "order"
    offeringType := .text "Storage.Volume"
    terminationAttributes := [⟨.text "force", .text "boolean"⟩] }

def volumeBuilder : Builder := { builder with extractor := { document := volumeDocument } }

theorem volume_ok :
    ∃ m registry, volumeBuilder.resource volumeSettings {} = (.ok m, registry) :=
  exists_of_isOk (by decide +kernel)

end Sample

theorem flags_of_order_sample :
    ∃ m registry input output,
      Sample.volumeBuilder.resource Sample.volumeSettings {} = (.ok m, registry) ∧
      (∀ name ∈ ["project", "offering"], ∃ f,
        (m.modelFields.filter fun g => g.name.same (.text name)) = [f] ∧ f.required = true ∧
        f.readOnly = false ∧ f.serverComputed = false) ∧
      Sample.volumeBuilder.extractor.extract Sample.responseNode = .ok output ∧
      ∀ f ∈ m.modelFields, f.name ∉ [.text "project", .text "offering"] →
        OrderFlags (find? input f.name) (find? output f.name) f := by
  obtain ⟨m, registry, h⟩ := Sample.volume_ok
  obtain ⟨hcommon, hflags⟩ := flags_of_order rfl h
  obtain ⟨_, _, attributes, schema, output, _, -, -, -, hschema, houtput, -, -, hothers⟩ :=
    hflags rfl (by rintro c ⟨⟩)
  have hnode : Sample.responseNode = schema := Except.ok.inj hschema
  exact ⟨m, registry, withOrderFields attributes, output, h, hcommon, hnode ▸ houtput, hothers⟩

end Builder

end ApiModels
