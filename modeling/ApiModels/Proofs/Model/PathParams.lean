/-
ApiModels.Proofs.Model.PathParams — the fields that fill the parameters of a
creation path.

Such a field is demanded among the fields of the model and accepted on
creation, and from then on it is required and writable. What is not taken
back is that it is the server's, if the merge has left it so. Who fills a
field in is settled later, and what is the server's then is required no
more. So a path parameter is a required input exactly if the merge does not
leave it to the server (`flags_of_pathParam`).

`LeftToServer` says when the merge does: where one of the sides has it so,
which only an override makes it, and in an order where the input may have
the field and the output has it too. With the two fields that every order
must be given, the merge takes it back itself.
-/
import ApiModels.Proofs.Model.Ascending

namespace ApiModels

namespace Builder

open ApiModels.Field (DistinctTexts Gains find? join_eq joinOrder_info mergedField? orderNames
  orderedField?)

/-! ## What the merge leaves to the server -/

/-- Merging leaves a name to the server, of which creation and the response have these fields. -/
inductive LeftToServer (plugin : Plugin) (name : Scalar) (create response : Option Field) :
    Prop where
  /-- The field that creation accepts is the server's. -/
  | accepted {c} (hc : create = some c) (h : c.serverComputed = true)
      (hname : plugin = .order → name ∉ orderNames)
  /-- The field that is returned is the server's; in an order, creation accepts no other one. -/
  | returned {o} (ho : response = some o) (h : o.serverComputed = true)
      (hname : plugin = .order → name ∉ orderNames ∧ create = none)
  /-- An order may be given the field and need not, and the field is returned. -/
  | optional {c o} (hplugin : plugin = .order) (hname : name ∉ orderNames) (hc : create = some c)
      (ho : response = some o) (h : c.required = false)

/-- A field is there, and it is the server's. -/
def Served (o : Option Field) : Prop := ∃ w, o = some w ∧ w.serverComputed = true

section

variable {plugin : Plugin} {name : Scalar} {create response : Option Field}

/-- Of two sides that are merged, either one leaves a name to the server. -/
theorem served_merged_iff (hplugin : plugin ≠ .order) :
    Served (mergedField? create response) ↔ LeftToServer plugin name create response := by
  have hother : ∀ {P : Prop}, plugin = .order → P := fun h => absurd h hplugin
  constructor
  · rintro ⟨w, hw, h⟩
    cases create with
    | none => exact .returned hw h hother
    | some c =>
      cases response with
      | none =>
        cases hw
        exact .accepted rfl h hother
      | some o =>
        cases hw
        simp only [join_eq, Field.joinInfo, Bool.or_eq_true] at h
        rcases h with h | h
        · exact .accepted rfl h hother
        · exact .returned rfl h hother
  · rintro (⟨rfl, h, -⟩ | ⟨rfl, h, -⟩ | ⟨horder, -, -, -, -⟩)
    · cases response with
      | none => exact ⟨_, rfl, h⟩
      | some o => exact ⟨_, rfl, by rw [join_eq]; simp [Field.joinInfo, h]⟩
    · cases create with
      | none => exact ⟨_, rfl, h⟩
      | some c => exact ⟨_, rfl, by rw [join_eq]; simp [Field.joinInfo, h]⟩
    · exact hother horder

/-- The input of an order leaves a name to the server, and so does an output without an input. -/
theorem served_ordered_iff (hname : name ∉ orderNames) :
    Served (orderedField? create response) ↔ LeftToServer .order name create response := by
  constructor
  · rintro ⟨w, hw, h⟩
    cases create with
    | none =>
      obtain ⟨o, ho, rfl⟩ := Option.map_eq_some_iff.1 hw
      exact .returned ho h fun _ => ⟨hname, rfl⟩
    | some c =>
      cases response with
      | none =>
        cases hw
        exact .accepted rfl h fun _ => hname
      | some o =>
        cases hw
        simp only [joinOrder_info, Field.orderInfo, Bool.or_eq_true] at h
        rcases h with h | h
        · exact .accepted rfl h fun _ => hname
        · exact .optional rfl hname rfl rfl (by simpa using h)
  · rintro (⟨rfl, h, -⟩ | ⟨rfl, h, hnone⟩ | ⟨-, -, rfl, rfl, h⟩)
    · cases response with
      | none => exact ⟨_, rfl, h⟩
      | some o => exact ⟨_, rfl, by rw [joinOrder_info]; simp [Field.orderInfo, h]⟩
    · obtain ⟨-, rfl⟩ := hnone rfl
      exact ⟨_, rfl, h⟩
    · exact ⟨_, rfl, by rw [joinOrder_info]; simp [Field.orderInfo, h]⟩

/-- Nothing leaves a name that every order demands to the server. -/
theorem not_leftToServer_of_demanded (hname : name ∈ orderNames) :
    ¬ LeftToServer .order name create response := by
  rintro (⟨-, -, hother⟩ | ⟨-, -, hother⟩ | ⟨-, hother, -, -, -⟩)
  · exact hother rfl hname
  · exact (hother rfl).1 hname
  · exact hother hname

end

theorem served_mergeOrder_iff {input output : List Field} (hinput : DistinctTexts input)
    (houtput : DistinctTexts output) (t : String) :
    Served (find? (Field.mergeOrder input output) (.text t)) ↔
      LeftToServer .order (.text t) (find? input (.text t)) (find? output (.text t)) := by
  by_cases hname : .text t ∈ orderNames
  · obtain ⟨f, hf⟩ := Field.find?_mergeOrder_of_mem hname input output
    rw [hf]
    refine iff_of_false ?_ (not_leftToServer_of_demanded hname)
    rintro ⟨_, hw, h⟩
    cases hw
    cases h
  · rw [Field.find?_mergeOrder_of_not_mem hinput houtput hname]
    exact served_ordered_iff hname

/-- Fields that are added are the server's no more than they were before. -/
theorem served_gains_iff {fields new fields' : List Field} (h : Gains fields new fields')
    (hnew : ∀ f ∈ new, f.serverComputed = false) (t : String) :
    Served (find? fields' (.text t)) ↔ Served (find? fields (.text t)) := by
  rw [h.found]
  cases find? fields (.text t) with
  | some w => rw [Option.some_or]
  | none =>
    rw [Option.none_or]
    refine iff_of_false ?_ ?_
    · rintro ⟨w, hw, hserved⟩
      rw [hnew w (Field.find?_text_some hw).1] at hserved
      cases hserved
    · rintro ⟨_, hw, -⟩
      cases hw

/-- A path parameter is the server's if what stood under its name was. -/
theorem served_asPathParam_iff (name : Scalar) (o : Option Field) :
    (asPathParam name o).serverComputed = true ↔ Served o := by
  cases o with
  | none => simp [Served, asPathParam, pathParamField, pathParamInfo, Field.leaf]
  | some w => simp [Served, asPathParam, pathParamInfo]

variable {b : Builder} {r : ResourceSettings}

namespace Drafting

variable {d : Draft} (s : Drafting b r d)

/-- What was merged under a text is the server's exactly where the sides leave it to the server. -/
theorem served_iff (t : String) :
    Served (find? s.merged (.text t)) ↔
      LeftToServer d.plugin (.text t) (find? s.create (.text t)) (find? s.response (.text t)) := by
  have hmerged := s.merged_eq
  cases hplugin : d.plugin with
  | standard | link =>
    rw [hplugin] at hmerged
    rw [← Except.ok.inj hmerged, Field.find?_merge s.distinct_create s.distinct_response]
    exact served_merged_iff nofun
  | order =>
    rw [hplugin] at hmerged
    obtain ⟨new, -, hgains, hnew⟩ := addParameters_spec hmerged
    rw [served_gains_iff hgains fun f hf => (hnew f hf).2.2]
    exact served_mergeOrder_iff s.distinct_create s.distinct_response t

/-- Without overrides creation accepts no field that is the server's. -/
theorem untouched_create (hoverrides : b.extractor.policy.overrides = []) :
    ∀ f ∈ s.create, f.serverComputed = false := by
  have hcreate := s.create_eq
  cases hplugin : d.plugin with
  | standard =>
    rw [hplugin] at hcreate
    have hbody := (requestFields_sides hoverrides (requestFields_of_standard hcreate)).2
    exact fun f hf => (hbody f hf).here.serverComputed
  | order =>
    obtain ⟨⟨_, _, attributes, -, -, hattributes, hcreate⟩, -⟩ := s.order hplugin
    rw [hcreate]
    have hextracted := (extract_sides hoverrides hattributes).2
    exact serverComputed_withOrderFields fun f hf => (hextracted f hf).here.serverComputed
  | link =>
    rw [hplugin] at hcreate
    simp only [createFields, Result.bind_eq_ok] at hcreate
    obtain ⟨body, hbody, withEnds, hends, hcreate⟩ := hcreate
    have huntouched := (requestFields_sides hoverrides hbody).2
    rw [addEndpoints_eq] at hends
    rw [addParameters_eq] at hcreate
    refine forall_addEach (List.forall_mem_map.2 fun p _ key _ => ?_) hcreate
      (forall_addEach (List.forall_mem_map.2 fun _ _ _ _ => rfl) hends fun f hf => ?_)
    · exact (ofParameter_info key _ _ false).2.2.2
    · exact (huntouched f hf).here.serverComputed

/-- Without overrides no field is returned that is the server's. -/
theorem untouched_response (hoverrides : b.extractor.policy.overrides = []) :
    ∀ f ∈ s.response, f.serverComputed = false := by
  have hresponse := s.response_eq
  cases hplugin : d.plugin with
  | link =>
    rw [hplugin] at hresponse
    rcases responseFields_of_link hresponse with
      hempty | ⟨node, fields, ends, -, hfields, -, hmarked⟩
    · rw [hempty]
      exact List.forall_mem_nil _
    · rw [hmarked, markEndpoints, List.forall_mem_map]
      intro f hf
      have huntouched := ((extract_sides hoverrides hfields).2 f hf).here.serverComputed
      split <;> exact huntouched
  | standard | order =>
    rw [hplugin] at hresponse
    obtain ⟨node, -, hextracted⟩ := responseFields_walked hresponse (by decide)
    exact fun f hf => ((extract_sides hoverrides hextracted).2 f hf).here.serverComputed

/-- Without overrides nothing but an order leaves a name to the server. -/
theorem order_of_leftToServer (hoverrides : b.extractor.policy.overrides = []) {t : String}
    (h : LeftToServer d.plugin (.text t) (find? s.create (.text t)) (find? s.response (.text t))) :
    d.plugin = .order := by
  rcases h with ⟨hc, h, -⟩ | ⟨ho, h, -⟩ | ⟨horder, -, -, -, -⟩
  · rw [s.untouched_create hoverrides _ (Field.find?_text_some hc).1] at h
    cases h
  · rw [s.untouched_response hoverrides _ (Field.find?_text_some ho).1] at h
    cases h
  · exact horder

/-- The field that is demanded for a parameter of the creation path. -/
theorem found_pathParam {t : String} (ht : .text t ∈ s.pathParams) :
    find? s.demanded (.text t) = some (asPathParam (.text t) (find? s.merged (.text t))) := by
  rw [demanded, find?_demandPathParams, if_pos ht]

/-- Creation accepts one field for a parameter of its path. -/
theorem one_accepted (hs : s.LeadsTo) {t : String} (ht : .text t ∈ s.pathParams) :
    ∃ g, (d.createFields.filter fun k => k.name.same (.text t)) = [g] := by
  have hsome := s.accepted_isSome_iff.2 (.inr ht)
  rw [Field.findLast?_text s.distinct_accepted] at hsome
  obtain ⟨g, hg⟩ := Option.isSome_iff_exists.1 hsome
  rw [← Field.find?_sortByName s.distinct_accepted, ← hs.createFields] at hg
  refine ⟨g, Field.filter_same_text ?_ hg⟩
  rw [hs.createFields]
  exact s.distinct_accepted.perm (Field.sortByName_perm _).symm

/-- The model has one field for a parameter of the creation path, which is required if it may be. -/
theorem one_pathParam (hs : s.LeadsTo) {registry registry' : NameRegistry} {m : ResourceModel}
    (h : ComesOf d.modelFields d.responseFields registry registry' m) {t : String}
    (ht : .text t ∈ s.pathParams) :
    ∃ f, (m.modelFields.filter fun g => g.name.same (.text t)) = [f] ∧
      f.isPathParam = true ∧ f.readOnly = false ∧ f.required = !f.serverComputed ∧
      (f.serverComputed = true ↔ LeftToServer d.plugin (.text t) (find? s.create (.text t))
        (find? s.response (.text t))) := by
  have hw := s.found_pathParam ht
  obtain ⟨f, hf, hname, hone⟩ := s.one_modelField hs h hw
  obtain ⟨t', w, ht', hw', hrole⟩ := s.found hs h List.mem_cons_self hf
  cases hname.symm.trans ht'
  rw [hw, Option.some.injEq] at hw'
  have haccepted := s.accepted_isSome_iff.2 (.inr ht)
  have hinfo : ∀ o, (asPathParam (.text t) o).isPathParam = true ∧
      (asPathParam (.text t) o).readOnly = false ∧
      (asPathParam (.text t) o).required = true := by
    intro o
    cases o <;> exact ⟨rfl, rfl, rfl⟩
  obtain ⟨hparam, hwritable, hrequired⟩ := hinfo (find? s.merged (.text t))
  rw [hw'] at hparam hwritable hrequired
  obtain ⟨hread, hcomputed, hneeded, -, -⟩ := Field.flags_of_role_eq hrole
  simp only [Field.settleInfo, Field.forcedInfo, haccepted, hwritable, hrequired, Bool.or_false,
    Bool.not_true, Bool.true_and] at hread hcomputed hneeded
  refine ⟨f, hone, ?_, hread, ?_, ?_⟩
  · exact (congrArg FieldInfo.isPathParam hrole).trans hparam
  · rw [hneeded, hcomputed]
  · rw [hcomputed, ← hw', served_asPathParam_iff, s.served_iff]

end Drafting

/-! ## Path parameters -/

/--
For a parameter of the creation path the model has one field and creation accepts one. That of the
model is marked and writable, and it is required unless the merge leaves it to the server: without
overrides, it is required of every resource that is no order.
-/
theorem flags_of_pathParam {c : CreateSettings} (hc : r.createOperation = some c)
    {registry registry' : NameRegistry} {m : ResourceModel}
    (h : b.resource r registry = (.ok m, registry')) :
    ∃ plugin create response, Plugin.ofValue r.plugin = .ok plugin ∧
      b.createFields r plugin = .ok create ∧ b.responseFields r plugin = .ok response ∧
      ∀ p ∈ c.pathParams, ∃ name f accepted, p.2.key = .ok name ∧
        (m.modelFields.filter fun g => g.name.same name) = [f] ∧
        (m.createFields.filter fun g => g.name.same name) = [accepted] ∧
        f.isPathParam = true ∧ f.readOnly = false ∧ f.required = !f.serverComputed ∧
        (f.serverComputed = true ↔
          LeftToServer plugin name (find? create name) (find? response name)) ∧
        (b.extractor.policy.overrides = [] → plugin ≠ .order → f.required = true) := by
  obtain ⟨d, hdraft, hcomes, hcreate, -⟩ := resource_spec h
  obtain ⟨s, hs⟩ := draft_spec hdraft
  have hkeys : Value.keys (c.pathParams.map Prod.snd) = .ok s.pathParams := by
    have hparams := s.pathParams_eq
    rwa [pathParamNames, hc] at hparams
  refine ⟨d.plugin, s.create, s.response, s.plugin_eq, s.create_eq, s.response_eq, fun p hp => ?_⟩
  obtain ⟨name, hmem, hkey⟩ := exists_key_of_mem hkeys p.2 (List.mem_map_of_mem hp)
  have htext := isText_of_demandPathParams (s.allTexts_demanded hs hcomes) name hmem
  obtain ⟨t, rfl⟩ := Scalar.isText_iff.1 htext
  obtain ⟨accepted, haccepted⟩ := s.one_accepted hs hmem
  obtain ⟨f, hone, hparam, hread, hrequired, hcomputed⟩ := s.one_pathParam hs hcomes hmem
  refine ⟨.text t, f, accepted, hkey, hone, hcreate ▸ haccepted, hparam, hread, hrequired,
    hcomputed, fun hoverrides hother => ?_⟩
  have hserved : f.serverComputed = false := Bool.eq_false_iff.2 fun h =>
    hother (s.order_of_leftToServer hoverrides (hcomputed.1 h))
  rw [hrequired, hserved]
  rfl

/-! ## A small order with a path parameter

A machine is ordered under the path of its tenant, which its attributes may name and which is
returned.
-/

namespace Sample

def tenantNode : Value := .record [("properties", .record [("tenant", textNode)])]

def tenantDocument : Document where
  root :=
    [(.text "components",
      .record [("schemas", .record [("HostedMachineCreateOrderAttributes", tenantNode)])])]
  operations :=
    [⟨.text "vm_retrieve", .text "/vms/1/", "GET",
       [(.text "responses", .record [("200", json tenantNode)])], []⟩]

def tenantOperation : CreateSettings where
  operationId := .text "tenant_create_vm"
  pathParams := [(.text "uuid", .text "tenant")]

def tenantSettings : ResourceSettings :=
  { settings with
    plugin := .text "order"
    offeringType := .text "Hosted.Machine"
    createOperation := some tenantOperation }

def tenantBuilder : Builder := { builder with extractor := { document := tenantDocument } }

/-- The tenant fills a parameter of the creation path, and yet it is the server's. -/
theorem tenant_served :
    ∃ m registry, tenantBuilder.resource tenantSettings {} = (.ok m, registry) ∧
      tenantSettings.createOperation = some tenantOperation ∧
      (.text "uuid", .text "tenant") ∈ tenantOperation.pathParams ∧
      ∃ f ∈ m.modelFields, f.name = .text "tenant" ∧ f.isPathParam = true ∧
        f.required = false ∧ f.serverComputed = true := by
  obtain ⟨m, registry, h, hfields⟩ := exists_of_any
    (x := tenantBuilder.resource tenantSettings {})
    (p := fun m => m.modelFields.any fun f => f.name.same (.text "tenant") &&
      (f.isPathParam && (!f.required && f.serverComputed))) (by decide +kernel)
  obtain ⟨f, hf, hsaid⟩ := List.any_eq_true.1 hfields
  simp only [Bool.and_eq_true, Scalar.same_text_iff, Bool.not_eq_true'] at hsaid
  exact ⟨m, registry, h, rfl, .head _, f, hf, hsaid⟩

end Sample

theorem flags_of_pathParam_sample :
    ∃ m registry plugin create response,
      Sample.tenantSettings.createOperation = some Sample.tenantOperation ∧
      Sample.tenantBuilder.resource Sample.tenantSettings {} = (.ok m, registry) ∧
      Plugin.ofValue Sample.tenantSettings.plugin = .ok plugin ∧
      ∀ p ∈ Sample.tenantOperation.pathParams, ∃ name f accepted, p.2.key = .ok name ∧
        (m.modelFields.filter fun g => g.name.same name) = [f] ∧
        (m.createFields.filter fun g => g.name.same name) = [accepted] ∧
        f.isPathParam = true ∧ f.readOnly = false ∧ f.required = !f.serverComputed ∧
        (f.serverComputed = true ↔
          LeftToServer plugin name (find? create name) (find? response name)) := by
  obtain ⟨m, registry, h⟩ := Sample.exists_of_isOk
    (x := Sample.tenantBuilder.resource Sample.tenantSettings {}) (by decide +kernel)
  obtain ⟨plugin, create, response, hplugin, -, -, hparams⟩ := flags_of_pathParam rfl h
  refine ⟨m, registry, plugin, create, response, rfl, h, hplugin, fun p hp => ?_⟩
  obtain ⟨name, f, accepted, hname, hone, haccepted, hparam, hread, hrequired, hserved, -⟩ :=
    hparams p hp
  exact ⟨name, f, accepted, hname, hone, haccepted, hparam, hread, hrequired, hserved⟩

end Builder

end ApiModels
