/-
ApiModels.Proofs.Model.Unresolved — schemas that are stated and lead
nowhere.

A resource that is no link must state what is retrieved, and an order must
state its offering's attributes: without that it is not built. But it is
enough that a node stands there. Where the node leads, along references that
may dangle, go round or be too many (`Document.Resolves`), is looked at by the
walk alone, to which a node that leads nowhere has no fields
(`resolves_or_empty`).

So a model is built from such a node too. It returns nothing then, and has
no fields but those that creation accepts; or what creation accepts is what
every order does (`resolves_or_bare`).
-/
import ApiModels.Proofs.Document.Reference
import ApiModels.Proofs.Model.Ascending

namespace ApiModels

/-- What is walked leads to an object, or has no fields. -/
theorem Extractor.resolves_or_empty {x : Extractor} {node : Value} {fields : List Field}
    (h : x.extract node = .ok fields) : x.document.Resolves node ∨ fields = [] := by
  unfold extract walkFrom at h
  split at h
  · exact .inr (Except.ok.inj h).symm
  · rw [fieldsOf, Result.bind_eq_ok] at h
    obtain ⟨⟨found, name⟩, hresolve, h⟩ := h
    cases found with
    | none => exact .inr (Except.ok.inj h).symm
    | some schema => exact .inl (Document.resolves_iff.2 ⟨schema, name, hresolve⟩)

namespace Builder

open ApiModels.Field (AllTexts names orderNames text_mem_names_iff texts)

variable {b : Builder} {r : ResourceSettings}

/-! ## The names of each side -/

namespace Drafting

variable {d : Draft} (s : Drafting b r d)

theorem mem_texts_accepted {t : String} :
    t ∈ texts s.accepted ↔ t ∈ texts s.create ∨ .text t ∈ s.pathParams := by
  rw [accepted, (gains_acceptPathParams s.create).mem_texts, mem_texts_pathParams]

/-- Creation accepts, once sorted, the names of its fields and of the parameters of its path. -/
theorem mem_names_accepted (h : AllTexts s.demanded) : ∀ name,
    name ∈ names (Field.sortByName s.accepted) ↔ name ∈ names s.create ∨ name ∈ s.pathParams := by
  have haccepted := s.allTexts_accepted h
  have hcreate := ((gains_acceptPathParams s.create).allTexts haccepted).1
  -- Fields are found by texts alone, so names are compared as texts.
  refine Scalar.iff_of_texts (fun name => ?_) (fun name => ?_) fun t => ?_
  · exact ((Field.allTexts_perm (Field.sortByName_perm _)).2 haccepted).isText
  · rintro (hname | hname)
    · exact hcreate.isText hname
    · exact isText_of_demandPathParams h name hname
  · rw [text_mem_names_iff, Field.mem_texts_perm (Field.sortByName_perm _), s.mem_texts_accepted,
      text_mem_names_iff]

/-- Where nothing is returned, what is merged has the names that are accepted, and parameters. -/
theorem mem_texts_merged_of_nil (hlink : d.plugin ≠ .link) (hempty : s.response = []) {t : String} :
    t ∈ texts s.merged ↔ t ∈ texts s.create ∨
      d.plugin = .order ∧ ∃ a ∈ r.terminationAttributes, a.name.key = .ok (.text t) := by
  have hmerged := s.merged_eq
  cases hplugin : d.plugin with
  | link => exact absurd hplugin hlink
  | standard =>
    rw [hplugin, hempty] at hmerged
    rw [← Except.ok.inj hmerged, Field.mem_texts_merge]
    simp [texts]
  | order =>
    obtain ⟨⟨_, _, attributes, -, -, -, hcreate⟩, -, hmerged⟩ := s.order hplugin
    obtain ⟨new, hkeys, hgains, -⟩ := addParameters_spec hmerged
    have hcommon : .text t ∈ orderNames → t ∈ texts s.create :=
      fun h => hcreate ▸ mem_texts_withOrderFields h
    have hnew : t ∈ texts new ↔ ∃ a ∈ r.terminationAttributes, a.name.key = .ok (.text t) := by
      rw [← text_mem_names_iff, mem_keys_iff hkeys]
      simp only [List.mem_map, exists_exists_and_eq_and]
    have hnone : t ∉ texts [] := List.not_mem_nil
    rw [hgains.mem_texts, Field.mem_texts_mergeOrder s.distinct_create s.distinct_response, hempty,
      hnew, or_iff_right hnone, or_iff_left_of_imp hcommon]
    exact or_congr_right (and_iff_right rfl).symm

variable {registry registry' : NameRegistry} {m : ResourceModel}

/-- Where nothing is returned, a model has nothing among the returned fields. -/
theorem responseFields_eq_nil (hs : s.LeadsTo)
    (h : ComesOf d.modelFields d.responseFields registry registry' m) (hempty : s.response = []) :
    m.responseFields = [] := by
  have hsorted : Field.sortByName [] = [] := (Field.sortByName_perm []).eq_nil
  have hdraft : d.responseFields = [] := by
    rw [hs.responseFields, hempty, marked, alignResponse, List.map_nil, hsorted]
    rfl
  have hreturned := h.restate_responseFields
  rw [hdraft, List.map_nil] at hreturned
  exact List.map_eq_nil_iff.1 hreturned

/-- Where a model is built, the names of termination attributes are texts. -/
theorem isText_termination (h : AllTexts s.demanded) (horder : d.plugin = .order) {name : Scalar}
    (hname : ∃ a ∈ r.terminationAttributes, a.name.key = .ok name) : name.isText = true := by
  obtain ⟨-, -, hmerged⟩ := s.order horder
  obtain ⟨new, hkeys, hgains, -⟩ := addParameters_spec hmerged
  obtain ⟨a, ha, hkey⟩ := hname
  obtain ⟨-, hnew⟩ := hgains.allTexts (allTexts_demandPathParams h)
  exact hnew.isText ((mem_keys_iff hkeys).2 ⟨a.name, List.mem_map_of_mem ha, hkey⟩)

/-- Where nothing is returned, a model has the fields that creation accepts, and parameters. -/
theorem mem_names_modelFields_of_nil (hs : s.LeadsTo)
    (h : ComesOf d.modelFields d.responseFields registry registry' m) (hlink : d.plugin ≠ .link)
    (hempty : s.response = []) : ∀ name, name ∈ names m.modelFields ↔
      name ∈ names d.createFields ∨
        d.plugin = .order ∧ ∃ a ∈ r.terminationAttributes, a.name.key = .ok name := by
  have hall := s.allTexts_demanded hs h
  obtain ⟨htexts, -⟩ := s.roles hs h List.mem_cons_self
  have haccepted := (Field.allTexts_perm (Field.sortByName_perm _)).2 (s.allTexts_accepted hall)
  refine Scalar.iff_of_texts (fun name => ?_) (fun name => ?_) fun t => ?_
  · exact AllTexts.isText fun f hf => (htexts f hf).1
  · rintro (hname | ⟨horder, hname⟩)
    · exact haccepted.isText (hs.createFields ▸ hname)
    · exact s.isText_termination hall horder hname
  · rw [(s.names_modelFields hs h).mem_iff, text_mem_names_iff, demanded,
      mem_texts_demandPathParams, s.mem_texts_merged_of_nil hlink hempty, hs.createFields,
      text_mem_names_iff, Field.mem_texts_perm (Field.sortByName_perm _), s.mem_texts_accepted,
      or_right_comm]

end Drafting

/-! ## What is built -/

/--
A standard resource or an order is built only where a schema of its response is stated, and an order
only where its offering's is. Such a schema leads to an object, or else nothing is returned and the
model has the fields that creation accepts and no others but termination attributes, or creation
accepts what every order does and the parameters of its path.
-/
theorem resolves_or_bare {plugin : Plugin} (hplugin : Plugin.ofValue r.plugin = .ok plugin)
    (hlink : plugin ≠ .link) {registry registry' : NameRegistry} {m : ResourceModel}
    (h : b.resource r registry = (.ok m, registry')) :
    (∃ node, b.document.responseSchema (ResourceSettings.derivedId r.baseOperationId "retrieve") =
        .ok node ∧
      (b.document.Resolves node ∨ m.responseFields = [] ∧
        ∀ name, name ∈ names m.modelFields ↔ name ∈ names m.createFields ∨
          plugin = .order ∧ ∃ a ∈ r.terminationAttributes, a.name.key = .ok name)) ∧
    (plugin = .order → ∃ offering node pathParams, r.offeringType.asText = .ok offering ∧
      b.document.schema (.text (offeringSchema offering)) = .ok node ∧
      pathParamNames r = .ok pathParams ∧
      (b.document.Resolves node ∨ ∀ name, name ∈ names m.createFields ↔
        name ∈ names orderCommonFields ∨ name ∈ pathParams)) := by
  obtain ⟨d, hdraft, hcomes, hcreate, -⟩ := resource_spec h
  obtain ⟨s, hs⟩ := draft_spec hdraft
  obtain rfl := s.plugin_eq_of_ofValue hplugin
  rw [hcreate]
  constructor
  · obtain ⟨node, hnode, hwalk⟩ := responseFields_walked s.response_eq hlink
    refine ⟨node, hnode, (Extractor.resolves_or_empty hwalk).imp id fun hempty => ?_⟩
    exact ⟨s.responseFields_eq_nil hs hcomes hempty,
      s.mem_names_modelFields_of_nil hs hcomes hlink hempty⟩
  · intro horder
    obtain ⟨⟨offering, node, attributes, hoffering, hnode, hwalk, hmade⟩, -, -⟩ := s.order horder
    refine ⟨offering, node, s.pathParams, hoffering, hnode, s.pathParams_eq, ?_⟩
    refine (Extractor.resolves_or_empty hwalk).imp id fun hempty => ?_
    have hcommon : s.create = orderCommonFields := by
      rw [hmade, hempty]
      rfl
    rw [← hcommon, hs.createFields]
    exact s.mem_names_accepted (s.allTexts_demanded hs hcomes)

/-! ## A small order without schemas

A machine is ordered and returned. Of both, the document states no more than a reference to a schema
that it does not declare.
-/

namespace Sample

def danglingNode : Value := .record [("$ref", .text "#/components/schemas/Machine")]

def danglingDocument : Document where
  root :=
    [(.text "components",
      .record [("schemas", .record [("HostedMachineCreateOrderAttributes", danglingNode)])])]
  operations :=
    [⟨.text "vm_retrieve", .text "/vms/1/", "GET",
       [(.text "responses", .record [("200", json danglingNode)])], []⟩]

def danglingSettings : ResourceSettings :=
  { settings with plugin := .text "order", offeringType := .text "Hosted.Machine" }

def danglingBuilder : Builder := { builder with extractor := { document := danglingDocument } }

/-- The schemas of what is returned and of the offering cannot be found, and yet it is built. -/
theorem built_unresolved :
    ∃ m registry node, danglingBuilder.resource danglingSettings {} = (.ok m, registry) ∧
      danglingDocument.responseSchema (.text "vm_retrieve") = .ok danglingNode ∧
      ¬ danglingDocument.Resolves danglingNode ∧
      danglingDocument.schema (.text (offeringSchema "Hosted.Machine")) = .ok node ∧
      ¬ danglingDocument.Resolves node := by
  obtain ⟨m, registry, h⟩ := exists_of_isOk
    (x := danglingBuilder.resource danglingSettings {}) (by decide +kernel)
  exact ⟨m, registry, _, h, rfl, Document.not_resolves rfl, rfl, Document.not_resolves rfl⟩

end Sample

theorem resolves_or_bare_sample :
    ∃ m registry node, Plugin.ofValue Sample.danglingSettings.plugin = .ok .order ∧
      Sample.danglingBuilder.resource Sample.danglingSettings {} = (.ok m, registry) ∧
      Sample.danglingBuilder.document.responseSchema (.text "vm_retrieve") = .ok node ∧
      (Sample.danglingBuilder.document.Resolves node ∨ m.responseFields = [] ∧
        ∀ name, name ∈ names m.modelFields ↔ name ∈ names m.createFields ∨
          Plugin.order = .order ∧
            ∃ a ∈ Sample.danglingSettings.terminationAttributes, a.name.key = .ok name) := by
  obtain ⟨m, registry, h⟩ := Sample.exists_of_isOk
    (x := Sample.danglingBuilder.resource Sample.danglingSettings {}) (by decide +kernel)
  have horder : Plugin.ofValue Sample.danglingSettings.plugin = .ok .order := rfl
  obtain ⟨⟨node, hnode, hbare⟩, -⟩ := resolves_or_bare horder nofun h
  exact ⟨m, registry, node, horder, h, hnode, hbare⟩

end Builder

end ApiModels
