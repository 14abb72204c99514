/-
ApiModels.Proofs.Model.Export — the structs that are handed on are all that
the models nest.

The result is about a whole run: where the names in the document are sound,
the structs beside the models have the names that the registry has given,
each once and in their order, and every struct nested in a model has the
same properties as the struct of its name. It rests on what a run leaves in
the models (`Builder.Ran`) and on what is collected from them
(`Field.Collected`).
-/
import ApiModels.Model.Export
import ApiModels.Proofs.Model.Run
import ApiModels.Proofs.Value.Reading

namespace ApiModels

namespace Export

open ApiModels.Field (NestedStruct Proper)

/-- The collected structs have the names of the registry, if the structs of the models do. -/
theorem mem_structNames_iff {r : NameRegistry} {models : List ResourceModel}
    {structs : List Field} (hran : Builder.Ran models {} r)
    (hcollected : Field.Collected r (models.map fun m => m.modelFields) structs) {name : String} :
    name ∈ structs.map (fun s => s.attrTypeRef) ↔ name ∈ r.names := by
  constructor
  · intro hname
    obtain ⟨s, hs, rfl⟩ := List.mem_map.1 hname
    exact (hcollected.proper s hs).mem_names hran.readable.toLegible
  · intro hname
    rcases hran.names name hname with hold | ⟨m, hm, s, hs, rfl⟩
    · cases hold
    · obtain ⟨t, ht, href⟩ := hcollected.complete _ (List.mem_map_of_mem hm) s hs
      exact href ▸ List.mem_map_of_mem ht

theorem replaceFields_self (models : List ResourceModel) :
    replaceFields models (models.map fun m => m.modelFields) = models := by
  induction models with
  | nil => rfl
  | cons m ms ih => rw [List.map_cons, replaceFields, ih]

theorem get?_metadata (e : Export) (createdAt : Option String) :
    ∃ ms, e.metadata createdAt = .object ms ∧
      Members.get? ms "nested_types" = some (.int e.structCount) := by
  refine ⟨_, rfl, ?_⟩
  cases createdAt <;> simp [Members.get?, Members.lookup]

/--
The structs that are handed on: in the strict order of their names, under the names of the
registry, and for every struct that a model nests one of the same name with the same properties.
-/
theorem ofModels_complete {b : Builder} (hnames : b.document.NamesSound)
    {models : List ResourceModel} {r : NameRegistry} (h : b.buildAll {} = (.ok models, r))
    (provider source : Value) :
    let e := ofModels provider source models r
    e.models = models ∧
    (e.structs.map fun s => s.attrTypeRef).Pairwise (· < ·) ∧
    (∀ name, name ∈ e.structs.map (fun s => s.attrTypeRef) ↔ name ∈ r.names) ∧
    (∀ createdAt, ∃ ms, e.metadata createdAt = .object ms ∧
      Members.get? ms "nested_types" = some (.int e.structs.length)) ∧
    ∀ m ∈ models, ∀ s, NestedStruct s m.modelFields ∨ NestedStruct s m.responseFields →
      ∃ t ∈ e.structs, t.attrTypeRef = s.attrTypeRef ∧
        (t.properties.map Field.kept).Perm (s.properties.map Field.kept) := by
  have hempty : NameRegistry.Readable {} :=
    ⟨⟨NameRegistry.consistent_empty, by simp [NameRegistry.names]⟩, by simp [NameRegistry.names]⟩
  have hran := Builder.buildEach_spec hnames hempty h
  have hproper : ∀ fields ∈ models.map (fun m => m.modelFields), ∀ f ∈ fields, Proper r f := by
    intro fields hfields
    obtain ⟨m, hm, rfl⟩ := List.mem_map.1 hfields
    exact (hran.modelled m hm).proper
  obtain ⟨hsame, hcollected⟩ := Field.collectLists_spec hran.readable hproper
  have hsorted : (ofModels provider source models r).structs.Perm
      (Field.collectLists {} (models.map fun m => m.modelFields)).2.structs := sortedBy_perm _ _
  have hmem : ∀ name, name ∈ (ofModels provider source models r).structs.map
      (fun s => s.attrTypeRef) ↔ name ∈ r.names :=
    fun name => ((hsorted.map _).mem_iff).trans (mem_structNames_iff hran hcollected)
  have hstrict : ((ofModels provider source models r).structs.map
      fun s => s.attrTypeRef).Pairwise (· < ·) := Field.sorted_pairwise hcollected.nodup
  intro e
  refine ⟨?_, hstrict, hmem, ?_, ?_⟩
  · exact (congrArg (replaceFields models) hsame).trans (replaceFields_self models)
  · intro createdAt
    have hlength : r.names.length = e.structs.length := by
      have hnodup := hstrict.imp fun {s t} hlt => (Std.ne_of_lt hlt : s ≠ t)
      have hperm := (List.perm_ext_iff_of_nodup hnodup hran.readable.consistent.names_nodup).2 hmem
      rw [← hperm.length_eq, List.length_map]
    obtain ⟨ms, hms, hget⟩ := get?_metadata e createdAt
    refine ⟨ms, hms, hget.trans ?_⟩
    rw [← hlength, NameRegistry.names, List.length_map]
    rfl
  · intro m hm s hs
    have hm' := hran.modelled m hm
    have hnested : NestedStruct s m.modelFields := hs.elim id fun hs => hs.subset hm'.response
    have hnests := hnested.nests fun f hf => (hm'.proper f hf).fits
    obtain ⟨t, ht, href⟩ := hcollected.complete _ (List.mem_map_of_mem hm) s hnests
    refine ⟨t, hsorted.mem_iff.2 ht, href, ?_⟩
    exact ((hcollected.proper t ht).kept_perm_iff hran.readable.toLegible
      (Proper.of_nests hm'.proper hnests)).2 href

end Export

/-! ## The structs of a run

A machine and a disk are returned. Structs of the same properties stand beside one another, within
one another and in a list.
-/

namespace Builder.Sample

/-- A schema that refers to nothing, and has properties with sound names if it has any. -/
inductive Plain : Value → Prop where
  | absent : Plain .null
  | schema {ms properties : Members} (href : ms.get? Pointer.member = none)
      (hparts : ms.get "allOf" = .null) (hitems : Plain (ms.get "items"))
      (hproperties : (ms.get "properties").association = .ok properties)
      (hnames : ∀ p ∈ properties, p.1.Sound) (h : ∀ p ∈ properties, Plain p.2) : Plain (.object ms)

namespace Plain

variable {d : Document} {node : Value} {schema : Members} {n : String}

theorem resolve (h : Plain node) (hresolve : d.resolve node = .ok ⟨some schema, n⟩) :
    node = .object schema ∧ n = "" := by
  cases h with
  | absent => cases hresolve
  | @schema ms _ href =>
    have hms : d.resolve (.object ms) = .ok ⟨some ms, ""⟩ := by
      change Members.chase d.root Pointer.greatestHops [] "" ms = _
      rw [Members.chase, href]
    cases hms.symm.trans hresolve
    exact ⟨rfl, rfl⟩

theorem items (h : Plain node) (hresolve : d.resolve node = .ok ⟨some schema, n⟩) :
    Plain (schema.get "items") := by
  obtain ⟨rfl, -⟩ := h.resolve hresolve
  cases h with
  | schema _ _ hitems => exact hitems

theorem property {name : Scalar} {inner : Value} (h : Plain node)
    (hresolve : d.resolve node = .ok ⟨some schema, n⟩)
    (hproperty : d.HasProperty schema name inner) : name.Sound ∧ Plain inner := by
  obtain ⟨rfl, -⟩ := h.resolve hresolve
  cases h with
  | schema _ hnone _ hproperties hnames h =>
    cases hproperty with
    | own hown hmem =>
      cases hproperties.symm.trans hown
      exact ⟨hnames _ hmem, h _ hmem⟩
    | inherited hparts hpart =>
      rw [hnone] at hparts
      cases hparts
      cases hpart

end Plain

/-- Where all schemas of bodies are plain and none is declared, names are sound. -/
theorem namesSound_of_plain {d : Document} (hroot : d.root = [])
    (hrequest : ∀ o ∈ d.operations, ∀ body n node,
      d.resolve (o.spec.get "requestBody") = .ok ⟨some body, n⟩ →
      Document.bodySchema body = .ok node → Plain node)
    (hresponse : ∀ o ∈ d.operations, ∀ responses code body n node,
      (o.spec.get "responses").membersOrNone = .ok responses → code ∈ Document.successCodes →
      d.resolve (Document.responseFor responses code) = .ok ⟨some body, n⟩ →
      Document.bodySchema body = .ok node → Plain node) : d.NamesSound := by
  have hplain : ∀ node, d.Schema node → Plain node := by
    intro node hnode
    induction hnode with
    | request ho hbody h => exact hrequest _ ho _ _ _ hbody h
    | response ho hresponses hcode hbody h =>
      exact hresponse _ ho _ _ _ _ _ hresponses hcode hbody h
    | component h => exact absurd h (Document.schema_ne_ok_of_empty hroot _ _)
    | items _ hresolve ih => exact ih.items hresolve
    | property _ hresolve h ih => exact (ih.property hresolve h).2
  have hclear : ∀ node, Plain node → d.RefUnmarked node := by
    intro node hnode schema n hresolve
    rw [(hnode.resolve hresolve).2]
    decide
  constructor
  · intro node schema n hnode hresolve name inner hproperty
    obtain ⟨hsound, hinner⟩ := (hplain node hnode).property hresolve hproperty
    exact ⟨hsound, hclear inner hinner⟩
  · intro node schema n hnode hresolve
    exact hclear _ ((hplain node hnode).items hresolve)

/-- A text is a sound name, as it can be looked up. -/
def isSound (s : String) : Bool := decide (Unmarked s) && s.toList.any (· != '_')

theorem sound_of_isSound {s : String} (h : isSound s = true) : Scalar.Sound (.text s) := by
  obtain ⟨hunmarked, hletter⟩ := Bool.and_eq_true_iff.1 h
  obtain ⟨c, hc, hne⟩ := List.any_eq_true.1 hletter
  rintro _ ⟨⟩
  exact ⟨of_decide_eq_true hunmarked, c, hc, bne_iff_ne.1 hne⟩

/-- A schema that says nothing of parts. -/
theorem Plain.leaf {ms : Members} (href : ms.get? Pointer.member = none)
    (hparts : ms.get "allOf" = .null) (hitems : Plain (ms.get "items"))
    (hnone : ms.get "properties" = .null) : Plain (.object ms) := by
  have hproperties : (ms.get "properties").association = .ok [] := by
    rw [hnone]
    rfl
  exact .schema href hparts hitems hproperties nofun nofun

theorem Plain.object {ms : Members} {properties : List (String × Value)}
    (href : ms.get? Pointer.member = none) (hparts : ms.get "allOf" = .null)
    (hitems : Plain (ms.get "items")) (hproperties : ms.get "properties" = .record properties)
    (hnames : (properties.all fun p => isSound p.1) = true)
    (h : ∀ p ∈ properties, Plain p.2) : Plain (.object ms) := by
  rw [Value.record] at hproperties
  refine .schema href hparts hitems (hproperties ▸ Value.association_object _)
    (fun p hp => ?_) fun p hp => ?_ <;> obtain ⟨q, hq, rfl⟩ := List.mem_map.1 hp
  · exact sound_of_isSound (List.all_eq_true.1 hnames q hq)
  · exact h q hq

/-- An object with some properties. -/
def objectNode (properties : List (String × Value)) : Value :=
  .record [("properties", .record properties)]

def listNode (items : Value) : Value := .record [("type", .text "array"), ("items", items)]

def timeNode : Value := .record [("type", .text "string"), ("format", .text "date-time")]

theorem plain_text : Plain textNode := .leaf rfl rfl .absent rfl

theorem plain_state : Plain stateNode := .leaf rfl rfl .absent rfl

theorem plain_time : Plain timeNode := .leaf rfl rfl .absent rfl

theorem plain_list {items : Value} (h : Plain items) : Plain (listNode items) := .leaf rfl rfl h rfl

theorem plain_object {properties : List (String × Value)}
    (hnames : (properties.all fun p => isSound p.1) = true)
    (h : ∀ p ∈ properties, Plain p.2) : Plain (objectNode properties) :=
  .object rfl rfl .absent rfl hnames h

theorem plain_owner : Plain ownerNode := plain_object (by decide) (by simp [plain_text])

theorem plain_response : Plain responseNode :=
  plain_object (by decide) (by simp [plain_owner, plain_state])

theorem plain_create : Plain createNode :=
  .object rfl rfl .absent rfl (by decide) (by simp [plain_text, plain_owner])

theorem namesSound : builder.document.NamesSound := by
  refine namesSound_of_plain rfl ?_ ?_
  · intro o ho body n node hbody hnode
    obtain ho | ⟨_, ho | ⟨_, ho⟩⟩ := ho
    · cases hbody
      cases hnode
      exact plain_create
    · cases hbody
    · cases List.mem_singleton.1 ho
      cases hbody
      cases hnode
      exact plain_object (by decide) (by simp [plain_text])
  · intro o ho responses code body n node hresponses hcode hbody hnode
    simp only [Document.successCodes, List.mem_cons, List.not_mem_nil, or_false] at hcode
    obtain ho | ⟨_, ho | ⟨_, ho⟩⟩ := ho
    · cases hresponses
      rcases hcode with rfl | rfl | rfl <;> cases hbody
    · cases hresponses
      rcases hcode with rfl | rfl | rfl <;> cases hbody
      cases hnode
      exact plain_response
    · cases List.mem_singleton.1 ho
      cases hresponses
      rcases hcode with rfl | rfl | rfl <;> cases hbody

/-- An operation that returns a thing with some properties. -/
def returned (id path : String) (properties : List (String × Value)) : Operation :=
  ⟨.text id, .text path, "GET",
    [(.text "responses", .record [("200", json (objectNode properties))])], []⟩

/-- Names are sound in a document of such operations. -/
theorem namesSound_of_returned {d : Document} (hroot : d.root = [])
    (h : ∀ o ∈ d.operations, ∃ id path properties, o = returned id path properties ∧
      Plain (objectNode properties)) : d.NamesSound := by
  refine namesSound_of_plain hroot ?_ ?_
  · intro o ho body n node hbody
    obtain ⟨id, path, properties, rfl, -⟩ := h o ho
    cases hbody
  · intro o ho responses code body n node hresponses hcode hbody hnode
    obtain ⟨id, path, properties, rfl, hplain⟩ := h o ho
    simp only [Document.successCodes, List.mem_cons, List.not_mem_nil, or_false] at hcode
    cases hresponses
    rcases hcode with rfl | rfl | rfl <;> cases hbody
    cases hnode
    exact hplain

/-- A renter is seen at some time. -/
def renterNode : Value :=
  objectNode [("name", textNode), ("seen", objectNode [("at", textNode)])]

def machineProperties : List (String × Value) :=
  [("made", objectNode [("at", timeNode)]), ("renter", renterNode)]

def diskProperties : List (String × Value) :=
  [("lent", listNode renterNode), ("lost", objectNode [("at", textNode)]),
   ("place", objectNode [("city", textNode)])]

def sharing : Builder :=
  { builder with
    config :=
      { builder.config with
        resources :=
          [settings, { settings with name := .text "disk", baseOperationId := .text "disk" }] }
    extractor :=
      { document :=
          { root := []
            operations :=
              [returned "vm_retrieve" "/vms/1/" machineProperties,
               returned "disk_retrieve" "/disks/1/" diskProperties] } } }

theorem sharing_namesSound : sharing.document.NamesSound := by
  have hseen : Plain (objectNode [("at", textNode)]) :=
    plain_object (by decide) (by simp [plain_text])
  have hmade : Plain (objectNode [("at", timeNode)]) :=
    plain_object (by decide) (by simp [plain_time])
  have hplace : Plain (objectNode [("city", textNode)]) :=
    plain_object (by decide) (by simp [plain_text])
  have hrenter : Plain renterNode := plain_object (by decide) (by simp [plain_text, hseen])
  refine namesSound_of_returned rfl fun o ho => ?_
  obtain ho | ⟨_, ho⟩ := ho
  · exact ⟨_, _, _, rfl, plain_object (by decide) (by simp [machineProperties, hmade, hrenter])⟩
  · cases List.mem_singleton.1 ho
    exact ⟨_, _, _, rfl, plain_object (by decide)
      (by simp [diskProperties, plain_list hrenter, hseen, hplace])⟩

/-- The structs of fields, and those of their properties. -/
def structsOf (fields : List Field) : List Field :=
  let outer := fields.filterMap Field.struct?
  outer ++ outer.flatMap fun s => s.properties.filterMap Field.struct?

theorem nests_of_mem_structsOf {s : Field} {fields : List Field} (h : s ∈ structsOf fields) :
    Field.Nests s fields := by
  rcases List.mem_append.1 h with houter | hinner
  · obtain ⟨f, hf, hs⟩ := List.mem_filterMap.1 houter
    exact .here hf hs
  · obtain ⟨t, ht, hs⟩ := List.mem_flatMap.1 hinner
    obtain ⟨f, hf, hft⟩ := List.mem_filterMap.1 ht
    obtain ⟨g, hg, hgs⟩ := List.mem_filterMap.1 hs
    exact .inside hf hft (.here hg hgs)

/--
The machine and the disk have a struct for what they were made and lost at, which the structs of
their renters hold too, and one for their renters.
-/
theorem ofModels_complete_sample :
    ∃ models r, sharing.buildAll {} = (.ok models, r) ∧
      models.map (fun m => (structsOf m.modelFields).map fun s => s.attrTypeRef) =
        [["Made", "Renter", "Made"], ["Renter", "Made", "Place", "Made"]] ∧
      let e := Export.ofModels .null .null models r
      (e.structs.map fun s => s.attrTypeRef).Pairwise (· < ·) ∧
      (∀ name, name ∈ e.structs.map (fun s => s.attrTypeRef) ↔ name ∈ r.names) ∧
      ∀ m ∈ models, ∀ s ∈ structsOf m.modelFields, ∃ t ∈ e.structs,
        t.attrTypeRef = s.attrTypeRef ∧
          (t.properties.map Field.kept).Perm (s.properties.map Field.kept) := by
  obtain ⟨models, r, h, hstructs⟩ := exists_of_any (x := sharing.buildAll {})
    (p := fun models => decide (models.map (fun m =>
      (structsOf m.modelFields).map fun s => s.attrTypeRef) =
        [["Made", "Renter", "Made"], ["Renter", "Made", "Place", "Made"]])) (by decide +kernel)
  obtain ⟨-, hsorted, hnames, -, hnested⟩ :=
    Export.ofModels_complete sharing_namesSound h .null .null
  refine ⟨models, r, h, of_decide_eq_true hstructs, hsorted, hnames, fun m hm s hs => ?_⟩
  exact hnested m hm s (.inl (nests_of_mem_structsOf hs).nestedStruct)

end Builder.Sample

end ApiModels
