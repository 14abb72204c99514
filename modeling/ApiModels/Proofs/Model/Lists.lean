/-
ApiModels.Proofs.Model.Lists — the four lists of fields of a model.

What creation and updates accept is extracted or added, and then sorted: a
statement that holds of extracted and of plain fields holds of it
(`Made.inputs`). What is returned, and what the resource itself is made of,
are merged besides, and pass through steps that change much of what is said
of a field but not its name and type (`Field.typing`). So a statement that
looks at these alone and that joins keep holds of all four lists
(`Lasting.fieldLists`).

* `wellFormed_of_definition` — every descriptor in them is of one of the
  forms of fields.
* `depth_le_maxDepth` — a walk goes no deeper than it may, and nothing in
  them is nested deeper than that.
-/
import ApiModels.Proofs.Extract.Levels
import ApiModels.Proofs.Model.Flags

namespace ApiModels

namespace Field

/-- What building leaves of a field: its name and its type. -/
def typing (f : FieldInfo) : FieldInfo := withoutRef (outline f)

theorem keeps_typing : Keeps typing := ⟨fun _ => rfl, fun _ => rfl, fun _ => rfl, fun _ => rfl⟩

theorem typing_outline (info : FieldInfo) : typing (outline info) = typing info := rfl

theorem typing_role (info : FieldInfo) : typing (role info) = typing info := rfl

theorem typing_silent (info : FieldInfo) : typing (silent info) = typing info := rfl

theorem typing_unskipped (info : FieldInfo) : typing (unskipped info) = typing info := rfl

end Field

namespace ResourceModel

/-- The lists of fields of a model. -/
def fieldLists (m : ResourceModel) : List (List Field) :=
  [m.createFields, m.updateFields, m.responseFields, m.modelFields]

end ResourceModel

namespace Builder

open ApiModels.Field (Describes Everywhere Fits Formed NestedWithin OccursAt TextNames keeps_typing
  restate typing)

variable {b : Builder} {d : Definition} {registry registry' : NameRegistry} {m : ResourceModel}
  {T : Field → Prop}

/-! ## What creation and updates accept -/

theorem Made.inputs (h : b.Made (fun _ => True) d.Structural T)
    (hm : b.definition d registry = (.ok m, registry')) :
    ∀ fields ∈ [m.createFields, m.updateFields], ∀ f ∈ fields, T f := by
  rw [List.forall_mem_cons, List.forall_mem_singleton]
  cases d with
  | resource r =>
    obtain ⟨draft, hdraft, -, hfinishes⟩ := resource_eq_ok hm
    obtain ⟨s, hs⟩ := draft_spec hdraft
    rw [hfinishes.createFields, hfinishes.updateFields, hs.createFields, hs.updateFields]
    have hcreate := (h.mono (fun _ _ => trivial) fun _ => id).create s.plugin_eq s.create_eq
    have haccepted := h.acceptPathParams (structural_pathParams s.pathParams_eq) hcreate
    exact ⟨fun f hf => haccepted f (Field.mem_sortByName.1 hf),
      fun f hf => h.update s.update_eq f (Field.mem_sortByName.1 hf)⟩
  | dataSource settings =>
    obtain ⟨_, _, -, -, -, -, hcreate, hupdate⟩ := dataSource_spec hm
    rw [hcreate, hupdate]
    exact ⟨nofun, nofun⟩

/-! ## Statements about names and types -/

/-- What holds of extracted and plain fields, is about names and types alone, and joins keep. -/
structure Lasting (b : Builder) (T : Field → Prop) : Prop
    extends Made b (fun _ => True) (fun _ => True) T where
  typed : ∀ f g, restate typing f = restate typing g → T f → T g
  join : ∀ f g, T f → T g → T (Field.join f g)
  joinOrder : ∀ f g, T f → T g → T (Field.joinOrder f g)

/-- Statements about all parts of a field last if joins keep what they say of each. -/
theorem lasting_of_joinable {P : Field → Prop} (hP : Field.Joinable P) (hfits : ∀ f, P f → f.Fits)
    (htyped : ∀ f g, restate typing f = restate typing g → P f → P g)
    (hextracted : ∀ node fields, b.extractor.extract node = .ok fields →
      ∀ f ∈ fields, Everywhere P f)
    (hplain : ∀ info, Plain info → P (.leaf info)) : b.Lasting (Everywhere P) where
  extracted := fun node fields _ => hextracted node fields
  plain := fun info hinfo _ => .intro (hplain info hinfo) nofun (by simp [Field.leaf])
  typed := fun _ g heq hf => hf.restate_eq htyped g heq
  join := fun _ _ => Field.everywhere_join hP
  joinOrder := fun _ _ => Field.everywhere_joinOrder hP hfits

namespace Lasting

variable {fields fields' : List Field}

theorem kept (h : b.Lasting T) (d : Definition) : b.Kept d T where
  toMade := h.mono (fun _ _ => trivial) fun _ _ => trivial
  info := by
    intro f info hf heq
    exact h.typed f _ (Field.restate_congr (congrArg typing heq).symm rfl rfl) hf
  join := fun f g _ => h.join f g
  joinOrder := fun f g _ => h.joinOrder f g

theorem of_restate_eq (h : b.Lasting T) {e : FieldInfo → FieldInfo}
    (he : ∀ info, typing (e info) = typing info)
    (heq : fields.map (restate e) = fields'.map (restate e)) (hfields : ∀ f ∈ fields, T f) :
    ∀ f ∈ fields', T f := by
  intro g hg
  obtain ⟨f, hf, hfg⟩ := Field.exists_restate_eq heq.symm hg
  exact h.typed f g (Field.restate_mono he hfg) (hfields f hf)

/-- What lasts holds of marked fields if it holds of the fields themselves. -/
theorem marked (h : b.Lasting T) {r : ResourceSettings} {draft : Draft} (s : Drafting b r draft)
    (hfields : ∀ f ∈ fields, T f) : ∀ f ∈ s.marked fields, T f :=
  h.of_restate_eq Field.typing_silent (s.silent_marked fields).symm
    fun f hf => hfields f (Field.mem_sortByName.1 hf)

theorem aligned (h : b.Lasting T) {r : ResourceSettings} {draft : Draft}
    (s : Drafting b r draft) :
    (∀ f ∈ s.settled, T f) ∧ ∀ f ∈ alignResponse s.settled s.response, T f := by
  have hsettled : ∀ f ∈ s.settled, T f :=
    h.of_restate_eq Field.typing_outline s.outline_settled.symm (s.demanded_of_kept (h.kept _))
  refine ⟨hsettled, fun f hf => ?_⟩
  obtain ⟨g, hg, rfl⟩ := List.mem_map.1 hf
  cases hfind : Field.find? s.settled g.name with
  | none => exact (h.kept (.resource r)).response s.response_eq g hg
  | some k => exact hsettled k (List.mem_of_find?_eq_some hfind)

theorem outputs (h : b.Lasting T) (hm : b.definition d registry = (.ok m, registry')) :
    ∀ fields ∈ [m.responseFields, m.modelFields], ∀ f ∈ fields, T f := by
  obtain ⟨model, response, hcomes, hmodel, hresponse⟩ : ∃ model response,
      ComesOf model response registry registry' m ∧ (∀ f ∈ model, T f) ∧
      ∀ f ∈ response, T f := by
    cases d with
    | resource r =>
      obtain ⟨draft, hdraft, hcomes, -⟩ := resource_eq_ok hm
      obtain ⟨s, hs⟩ := draft_spec hdraft
      obtain ⟨hsettled, haligned⟩ := h.aligned s
      refine ⟨_, _, hcomes, ?_, ?_⟩
      · exact hs.modelFields ▸ h.marked s hsettled
      · exact hs.responseFields ▸ h.marked s haligned
    | dataSource settings =>
      obtain ⟨raw, fields, hraw, rfl, hcomes, -⟩ := dataSource_spec hm
      have hshown := h.of_restate_eq Field.typing_outline
        (outline_shown (Name.spaced m.name) raw).symm
        ((h.kept (.dataSource settings)).dataSource hraw)
      have hfields := h.of_restate_eq Field.typing_unskipped (Field.restate_skipExcludedAll
        b.extractor.policy [] (.text "") (Field.sortByName _)).symm
        fun f hf => hshown f (Field.mem_sortByName.1 hf)
      exact ⟨_, _, hcomes, hfields, hfields⟩
  rw [List.forall_mem_cons, List.forall_mem_singleton]
  exact ⟨h.of_restate_eq Field.typing_role hcomes.role_responseFields.symm hresponse,
    h.of_restate_eq Field.typing_role hcomes.role_modelFields.symm hmodel⟩

/-- What lasts holds of all fields of a model. -/
theorem fieldLists (h : b.Lasting T) (hm : b.definition d registry = (.ok m, registry')) :
    ∀ fields ∈ m.fieldLists, ∀ f ∈ fields, T f :=
  List.forall_mem_append.2 ⟨(h.mono (fun _ => id) fun _ _ => trivial).inputs hm, h.outputs hm⟩

end Lasting

/-! ## A tree

A machine is returned as a tree, whose schema leads to itself by two ways. Where it may be followed
no further, what has fields elsewhere is a map.
-/

namespace Sample

def treeNode : Value := .record [("$ref", .text "#/schemas/Tree")]

/-- A machine is returned as a tree, which has a tree as its parent and trees as children. -/
def treeBuilder : Builder :=
  { builder with
    extractor :=
      { document :=
          { root :=
              [(.text "schemas", .record [("Tree", .record [("properties", .record
                [("children", .record [("type", .text "array"), ("items", treeNode)]),
                 ("name", textNode), ("parent", treeNode)])])])]
            operations :=
              [⟨.text "vm_retrieve", .text "/vms/1/", "GET",
                [(.text "responses", .record [("200", json treeNode)])], []⟩] } } }

/-- The steps to the parents of the children of a parent. -/
def steps : List Field.Step :=
  [.object (.text "parent"), .items (.text "children"), .object (.text "parent")]

/-- The trees there are maps. -/
def deep (fields : List Field) : Bool :=
  (Field.atLast? fields steps (.text "parent")).any fun f => f.kind == .map

theorem exists_of_deep {fields : List Field} (h : deep fields = true) :
    ∃ f, OccursAt f steps fields ∧ f.kind = .map := by
  unfold deep at h
  cases hf : Field.atLast? fields steps (.text "parent") with
  | none =>
    rw [hf] at h
    cases h
  | some f =>
    rw [hf] at h
    exact ⟨f, (Field.occursAt_of_atLast? ⟨by decide, rfl⟩ hf).1, by simpa using h⟩

theorem tree_ok : ∃ m registry, treeBuilder.definition (.resource settings) {} =
    (.ok m, registry) ∧ ∃ f, OccursAt f steps m.modelFields ∧ f.kind = .map := by
  obtain ⟨m, registry, hm, h⟩ := exists_of_any
    (x := treeBuilder.definition (.resource settings) {}) (p := fun m => deep m.modelFields)
    (by decide +kernel)
  exact ⟨m, registry, hm, exists_of_deep h⟩

end Sample

/-! ## Forms -/

theorem lasting_formed (b : Builder) : b.Lasting (Everywhere Formed) := by
  refine lasting_of_joinable Field.formed_joinable (fun _ hf => hf.fits)
    (fun _ _ => Formed.restate_eq keeps_typing) (fun _ _ => Extractor.extract_formed) ?_
  exact fun info hinfo => ⟨hinfo.fits, fun h => absurd h hinfo.kind, hinfo.values⟩

/--
Whatever is described in a list of a model, on any level, is a scalar without parts, an object with
properties, a row of elements with an item schema just if these are objects, or a map of scalars.
It is shown as nested just if it has properties or its items do.
-/
theorem wellFormed_of_definition (hm : b.definition d registry = (.ok m, registry')) :
    ∀ fields ∈ m.fieldLists, ∀ f, Describes f fields →
      f.WellFormed ∧ (f.typeMeta.isNested = true ↔ f.properties ≠ [] ∨ f.itemProperties ≠ []) := by
  intro fields hfields f hf
  have hformed := Everywhere.of_describes ((lasting_formed b).fieldLists hm fields hfields) hf
  have hwell := Field.wellFormed_of_everywhere hformed
  exact ⟨hwell, hwell.isNested_iff⟩

theorem wellFormed_of_definition_tree :
    ∃ m registry, Sample.treeBuilder.definition (.resource Sample.settings) {} =
        (.ok m, registry) ∧
      (∃ f, Describes f m.modelFields ∧ f.kind = .map) ∧
      ∀ fields ∈ m.fieldLists, ∀ f, Describes f fields → f.WellFormed ∧
        (f.typeMeta.isNested = true ↔ f.properties ≠ [] ∨ f.itemProperties ≠ []) := by
  obtain ⟨m, registry, hm, f, hf, hkind⟩ := Sample.tree_ok
  exact ⟨m, registry, hm, ⟨f, .inl ⟨_, hf⟩, hkind⟩, wellFormed_of_definition hm⟩

/-! ## Names -/

theorem comesOf_of_definition (h : b.definition d registry = (.ok m, registry')) :
    ∃ fields response, ComesOf fields response registry registry' m := by
  cases d with
  | resource settings =>
    obtain ⟨draft, -, hcomes, -⟩ := resource_spec h
    exact ⟨_, _, hcomes⟩
  | dataSource settings =>
    obtain ⟨_, fields, -, -, hcomes, -⟩ := dataSource_spec h
    exact ⟨_, _, hcomes⟩

/-- What is returned and the fields of the resource itself are named by texts, on every level. -/
theorem textNames_outputs (hm : b.definition d registry = (.ok m, registry')) :
    ∀ fields ∈ [m.responseFields, m.modelFields], ∀ f ∈ fields, TextNames f := by
  obtain ⟨model, response, hcomes⟩ := comesOf_of_definition hm
  have hformed := (lasting_formed b).outputs hm
  have hnamed : ∀ {named fields : List Field},
      named ∈ [m.responseFields, m.modelFields] → (∀ f ∈ fields, Field.nameable f = true) →
      named.map (restate Field.role) = fields.map (restate Field.role) →
      ∀ f ∈ named, TextNames f := by
    intro named fields hmem hnameable heq
    have hfits : ∀ f ∈ fields, Everywhere Fits f :=
      Everywhere.forall_restate_eq (fun _ _ => Fits.restate_eq Field.keeps_role) heq
        fun f hf => (hformed named hmem f hf).imp fun _ hg => hg.fits
    exact Field.textNames_restate_eq Field.keeps_role heq.symm fun f hf =>
      Field.textNames_of_nameable (hfits f hf) (hnameable f hf)
  rw [List.forall_mem_cons, List.forall_mem_singleton]
  exact ⟨hnamed (.head _) hcomes.nameable.2 hcomes.role_responseFields,
    hnamed (.tail _ (.head _)) hcomes.nameable.1 hcomes.role_modelFields⟩

/-! ## Depth -/

theorem lasting_nestedWithin (b : Builder) :
    b.Lasting (NestedWithin b.extractor.maxDepth.toNat) where
  extracted := fun _ _ _ => Extractor.extract_nestedWithin
  plain := fun info _ _ => Field.nestedWithin_leaf _ info
  typed := fun _ _ => NestedWithin.restate_eq
  join := fun _ _ => NestedWithin.join
  joinOrder := fun _ _ => NestedWithin.joinOrder

/--
A walk that starts beyond the greatest depth is empty. No other one leads anywhere by more steps
than there are from its depth to the greatest one, and in no list of a model do more steps than
that depth lead anywhere.
-/
theorem depth_le_maxDepth (b : Builder) :
    (∀ skip depth path node,
      (b.extractor.maxDepth < depth → b.extractor.walkFrom skip depth path node = .ok []) ∧
      ∀ fields, depth ≤ b.extractor.maxDepth →
        b.extractor.walkFrom skip depth path node = .ok fields →
        ∀ f steps, OccursAt f steps fields →
          (steps.length : Int) ≤ b.extractor.maxDepth - depth) ∧
    ∀ d registry m registry', b.definition d registry = (.ok m, registry') →
      ∀ fields ∈ m.fieldLists, ∀ f steps, OccursAt f steps fields →
        steps.length ≤ b.extractor.maxDepth.toNat := by
  refine ⟨fun skip depth path node => ⟨fun hdepth => ?_, ?_⟩, ?_⟩
  · have hlevels : b.extractor.levelsFrom depth = 0 := by
      rw [Extractor.levelsFrom]
      omega
    rw [Extractor.walkFrom, hlevels]
  · intro fields hdepth h f steps hf
    have hlength := Field.withinLevels_iff.1 (Extractor.walkFrom_withinLevels h) f steps hf
    rw [Extractor.levelsFrom] at hlength
    omega
  · intro d registry m registry' hm fields hfields f steps hf
    have hwithin : Field.WithinLevels (b.extractor.maxDepth.toNat + 1) fields :=
      (lasting_nestedWithin b).fieldLists hm fields hfields
    exact Nat.lt_succ_iff.1 (Field.withinLevels_iff.1 hwithin f steps hf)

/-- A tree that leads to itself is walked and returned down to the greatest depth. -/
theorem depth_le_maxDepth_tree :
    (∃ fields, Sample.treeBuilder.extractor.walkFrom false 0 (.text "") Sample.treeNode =
        .ok fields ∧
      (∃ f steps, OccursAt f steps fields ∧ steps.length = 3) ∧
      ∀ f steps, OccursAt f steps fields → (steps.length : Int) ≤ 3 - 0) ∧
    Sample.treeBuilder.extractor.walkFrom false 4 (.text "") Sample.treeNode = .ok [] ∧
    ∃ m registry, Sample.treeBuilder.definition (.resource Sample.settings) {} =
        (.ok m, registry) ∧
      (∃ f steps, OccursAt f steps m.modelFields ∧ steps.length = 3) ∧
      ∀ fields ∈ m.fieldLists, ∀ f steps, OccursAt f steps fields → steps.length ≤ 3 := by
  obtain ⟨hwalks, hmodels⟩ := depth_le_maxDepth Sample.treeBuilder
  refine ⟨?_, (hwalks false 4 (.text "") Sample.treeNode).1 (by decide), ?_⟩
  · obtain ⟨fields, hfields, h⟩ := Sample.eq_ok_of_any
      (x := Sample.treeBuilder.extractor.walkFrom false 0 (.text "") Sample.treeNode)
      (p := Sample.deep) (by decide +kernel)
    obtain ⟨f, hf, -⟩ := Sample.exists_of_deep h
    exact ⟨fields, hfields, ⟨f, _, hf, rfl⟩,
      (hwalks false 0 (.text "") Sample.treeNode).2 fields (by decide) hfields⟩
  · obtain ⟨m, registry, hm, f, hf, -⟩ := Sample.tree_ok
    exact ⟨m, registry, hm, ⟨f, _, hf, rfl⟩, hmodels _ _ m registry hm⟩

end Builder

end ApiModels
