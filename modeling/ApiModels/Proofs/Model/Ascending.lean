/-
ApiModels.Proofs.Model.Ascending — the fields of a model are in the order of
their names.

Each of the four lists of a model is sorted last of all its top level, so
there it remains that no name is there twice: what is added is added under
names that are missing (`Drafting.distinct_accepted`), and what is returned
has the names of one schema (`Drafting.distinct_aligned`).

Deeper levels are not sorted again. Each of them was sorted when it was
extracted, or when the properties of two fields were made one, and no later
step changes a name (`made_orderly`, `lasting_ascending`).

Together that is `orderly_of_buildAll`: on every level names strictly
increase, and none is there twice.
-/
import ApiModels.Proofs.Model.Lists
import ApiModels.Proofs.Model.Link
import ApiModels.Proofs.Model.Order
import ApiModels.Proofs.Model.Run

namespace ApiModels

namespace Builder

open ApiModels.Field (AllTexts Ascending DistinctTexts Everywhere Level OccursAt Orderly names
  texts)

variable {b : Builder} {d : Definition} {registry registry' : NameRegistry} {m : ResourceModel}

/-! ## Levels of extracted and of joined fields -/

theorem requestFields_orderly {id : Value} {fields : List Field}
    (h : b.requestFields id = .ok fields) : Orderly fields := by
  obtain rfl | ⟨node, -, hextracted⟩ := requestFields_eq_ok h
  · exact Field.orderly_nil
  · exact (Extractor.extract_orderly hextracted).1

theorem dataSourceFields_orderly {settings : DataSourceSettings} {fields : List Field}
    (h : b.dataSourceFields settings.baseOperationId = .ok fields) : Orderly fields := by
  obtain rfl | ⟨node, -, hextracted⟩ := dataSourceFields_eq_ok h
  · exact Field.orderly_nil
  · exact (Extractor.extract_orderly hextracted).1

theorem made_orderly (b : Builder) :
    b.Made (fun _ => True) (fun _ => True) (Everywhere fun f => Orderly f.properties) where
  extracted := fun _ _ _ h => (Extractor.extract_orderly h).2
  plain := fun _ _ _ => .intro Field.orderly_nil nofun (by simp [Field.leaf])

theorem lasting_ascending (b : Builder) :
    b.Lasting (Everywhere fun f =>
      f.Fits ∧ (AllTexts f.properties → Ascending f.properties)) := by
  refine lasting_of_joinable (Field.fits_joinable.and Field.ascending_joinable) (fun _ hf => hf.1)
    ?_ ?_ fun info hinfo => ⟨hinfo.fits, fun _ => .nil⟩
  · rintro f g heq ⟨hfits, hascending⟩
    have hnames := Field.names_restate_eq Field.keeps_typing (Field.properties_restate_eq heq)
    refine ⟨hfits.restate_eq Field.keeps_typing heq, fun htexts => ?_⟩
    rw [Ascending, ← hnames]
    exact hascending (htexts.of_names_eq hnames.symm)
  · intro node fields h f hf
    exact ((Extractor.extract_shaped h f hf).and ((Extractor.extract_orderly h).2 f hf)).imp
      fun _ hg => ⟨hg.1.1.fits, hg.2.ascending⟩

/-! ## The sides of a resource -/

namespace Drafting

variable {r : ResourceSettings} {draft : Draft} (s : Drafting b r draft)

theorem distinct_create : DistinctTexts s.create := by
  have hcreate := s.create_eq
  cases hplugin : draft.plugin with
  | standard =>
    rw [hplugin] at hcreate
    exact (requestFields_orderly (requestFields_of_standard hcreate)).distinct
  | order =>
    rw [hplugin] at hcreate
    simp only [createFields, Result.bind_eq_ok] at hcreate
    obtain ⟨_, -, node, -, extracted, hextracted, hcreate⟩ := hcreate
    rw [← Except.ok.inj hcreate]
    exact distinct_withOrderFields (Extractor.extract_orderly hextracted).1.distinct
  | link =>
    obtain ⟨⟨body, ends, params, hbody, -, -, hgains⟩, -⟩ := s.link hplugin
    exact hgains.distinct (requestFields_orderly hbody).distinct

theorem distinct_accepted : DistinctTexts s.accepted :=
  (gains_acceptPathParams s.create).distinct s.distinct_create

theorem orderly_update : Orderly s.update := by
  have hupdate := s.update_eq
  cases hplugin : draft.plugin with
  | link =>
    rw [hplugin] at hupdate
    exact Except.ok.inj hupdate ▸ Field.orderly_nil
  | standard | order =>
    rw [hplugin] at hupdate
    exact requestFields_orderly hupdate

theorem distinct_response : DistinctTexts s.response := by
  have hresponse := s.response_eq
  cases hplugin : draft.plugin with
  | link =>
    rw [hplugin] at hresponse
    rcases responseFields_of_link hresponse with
      hempty | ⟨node, extracted, ends, -, hextracted, -, hmarked⟩
    · exact hempty ▸ List.nodup_nil
    · rw [hmarked]
      exact (Extractor.extract_orderly hextracted).1.distinct.of_names_perm
        (by rw [names_markEndpoints])
  | standard | order =>
    rw [hplugin] at hresponse
    obtain ⟨node, -, hextracted⟩ := responseFields_walked hresponse nofun
    exact (Extractor.extract_orderly hextracted).1.distinct

theorem distinct_settled : DistinctTexts s.settled := by
  rw [DistinctTexts, Field.texts_of_names_eq
    (Field.names_restate_eq Field.keeps_outline s.outline_settled)]
  exact distinct_demanded s

/-- Fields of the model take the places of returned ones of the same names. -/
theorem distinct_aligned : DistinctTexts (alignResponse s.settled s.response) := by
  have htexts : texts (alignResponse s.settled s.response) = texts s.response := by
    unfold texts alignResponse
    rw [List.filterMap_map]
    refine List.filterMap_congr fun f _ => ?_
    dsimp only [Function.comp_apply]
    cases hfind : Field.find? s.settled f.name with
    | none => rfl
    | some k => exact Field.text?_eq_of_same (Field.find?_same hfind)
  rw [DistinctTexts, htexts]
  exact s.distinct_response

theorem allTexts_accepted (h : AllTexts s.demanded) : AllTexts s.accepted := by
  have hcreate : AllTexts s.create := by
    have hmerged := s.merged_eq
    have htexts : AllTexts s.merged := allTexts_demandPathParams h
    cases hplugin : draft.plugin with
    | order =>
      rw [hplugin] at hmerged
      obtain ⟨new, -, hgains, -⟩ := addParameters_spec hmerged
      exact (Field.allTexts_mergeOrder.1 (hgains.allTexts htexts).1).1
    | standard | link =>
      rw [hplugin] at hmerged
      rw [← Except.ok.inj hmerged] at htexts
      exact (Field.allTexts_merge.1 htexts).1
  exact forall_acceptPathParams (isText_of_demandPathParams h) hcreate

end Drafting

/-! ## All lists -/

/-- The top level of each list of a model is orderly. -/
theorem orderly_fieldLists (hm : b.definition d registry = (.ok m, registry')) :
    ∀ fields ∈ m.fieldLists, Orderly fields := by
  have houtputs := textNames_outputs hm
  have hresponse : AllTexts m.responseFields :=
    fun f hf => (houtputs m.responseFields (.head _) f hf).1
  have hmodel : AllTexts m.modelFields :=
    fun f hf => (houtputs m.modelFields (.tail _ (.head _)) f hf).1
  suffices h : Orderly m.createFields ∧ Orderly m.updateFields ∧ Orderly m.responseFields ∧
      Orderly m.modelFields by
    obtain ⟨hcreate, hupdate, hreturned, hkept⟩ := h
    simp [ResourceModel.fieldLists, hcreate, hupdate, hreturned, hkept]
  cases d with
  | resource r =>
    obtain ⟨draft, hdraft, hcomes, hfinishes⟩ := resource_eq_ok hm
    obtain ⟨s, hs⟩ := draft_spec hdraft
    obtain ⟨hnamed, hnamed'⟩ := hcomes.nameable
    have haccepted := s.allTexts_accepted (s.allTexts_demanded hs hcomes)
    have haligned := s.aligned_subset hs fun f hf => Field.isText_of_nameable (hnamed' f hf)
    obtain ⟨-, hrole⟩ := s.roles_of_marked (List.Subset.refl _) hs.modelFields hnamed
      hcomes.role_modelFields
    obtain ⟨-, hrole'⟩ := s.roles_of_marked haligned hs.responseFields hnamed'
      hcomes.role_responseFields
    rw [hfinishes.createFields, hfinishes.updateFields, hs.createFields, hs.updateFields]
    -- Nothing is added to what updates accept, so no name there has to be a text.
    refine ⟨?_, s.orderly_update.sortByName, ?_, ?_⟩
    · exact Field.orderly_of_names_eq rfl
        ((Field.allTexts_perm (Field.sortByName_perm _)).2 haccepted) s.distinct_accepted
    · exact Field.orderly_of_names_eq (Field.names_restate_eq Field.keeps_role hrole') hresponse
        s.distinct_aligned
    · exact Field.orderly_of_names_eq (Field.names_restate_eq Field.keeps_role hrole) hmodel
        s.distinct_settled
  | dataSource settings =>
    obtain ⟨raw, fields, hraw, rfl, hcomes, -, hcreate, hupdate⟩ := dataSource_spec hm
    have hshown := Field.names_restate_eq Field.keeps_outline
      (outline_shown (Name.spaced m.name) raw)
    have hdistinct : DistinctTexts (Field.markDataSourceAll
        (Field.describeAll (Name.spaced m.name) raw)) := by
      rw [DistinctTexts, Field.texts_of_names_eq hshown]
      exact (dataSourceFields_orderly hraw).distinct
    have hmarked := fun fields => Field.names_restate_eq Field.keeps_outline
      (Field.map_restate_comp Field.outline_unskipped
        (Field.restate_skipExcludedAll b.extractor.policy [] (.text "") fields))
    rw [hcreate, hupdate]
    refine ⟨Field.orderly_nil, Field.orderly_nil, ?_, ?_⟩
    · exact Field.orderly_of_names_eq ((Field.names_restate_eq Field.keeps_role
        hcomes.role_responseFields).trans (hmarked _)) hresponse hdistinct
    · exact Field.orderly_of_names_eq ((Field.names_restate_eq Field.keeps_role
        hcomes.role_modelFields).trans (hmarked _)) hmodel hdistinct

/-- Creation accepts fields named by texts. -/
theorem allTexts_createFields (hm : b.definition d registry = (.ok m, registry')) :
    AllTexts m.createFields := by
  cases d with
  | resource r =>
    obtain ⟨draft, hdraft, hcomes, hfinishes⟩ := resource_eq_ok hm
    obtain ⟨s, hs⟩ := draft_spec hdraft
    rw [hfinishes.createFields, hs.createFields]
    exact (Field.allTexts_perm (Field.sortByName_perm _)).2
      (s.allTexts_accepted (s.allTexts_demanded hs hcomes))
  | dataSource settings =>
    obtain ⟨_, _, -, -, -, -, hcreate, -⟩ := dataSource_spec hm
    rw [hcreate]
    exact nofun

/-- The deeper levels of each list of a model are orderly. -/
theorem orderly_properties (hm : b.definition d registry = (.ok m, registry')) :
    ∀ fields ∈ m.fieldLists, ∀ f ∈ fields, Everywhere (fun f => Orderly f.properties) f := by
  have hinputs := ((made_orderly b).mono (fun _ => id) fun _ _ => trivial).inputs hm
  have houtputs : ∀ fields ∈ [m.responseFields, m.modelFields], ∀ f ∈ fields,
      Everywhere (fun f => Orderly f.properties) f := by
    intro fields hfields f hf
    have hascending := (lasting_ascending b).outputs hm fields hfields f hf
    have htexts := (textNames_outputs hm fields hfields f hf).2
    exact (hascending.and htexts).imp fun g hg _ => ⟨hg.2, hg.1.2 hg.2⟩
  exact List.forall_mem_append.2 ⟨hinputs, houtputs⟩

/--
Where a run gives models, each level of each of their lists that has a text among its names has
only texts, in strictly increasing order, and no text names two fields of it. What creation accepts
is named by texts, and so is what is returned, and the fields of the resource, on every level.
-/
theorem orderly_of_buildAll {models : List ResourceModel}
    (h : b.buildAll registry = (.ok models, registry')) :
    ∀ m ∈ models,
      (∀ fields ∈ m.fieldLists, ∀ level, Level level fields →
        ((∃ f ∈ level, f.name.isText = true) → AllTexts level ∧ Ascending level) ∧
        DistinctTexts level) ∧
      (AllTexts m.createFields ∧ Ascending m.createFields) ∧
      ∀ fields ∈ [m.responseFields, m.modelFields], ∀ level, Level level fields →
        AllTexts level ∧ Ascending level := by
  intro m hm
  obtain ⟨d, -, between, after, hd⟩ := exists_definition_of_buildEach h m hm
  have hlevels : ∀ fields ∈ m.fieldLists, ∀ level, Level level fields → Orderly level :=
    fun fields hfields => Everywhere.forall_level (orderly_fieldLists hd fields hfields)
      (orderly_properties hd fields hfields)
  have hcreate : AllTexts m.createFields := allTexts_createFields hd
  refine ⟨fun fields hfields level hlevel => ?_, ⟨hcreate, ?_⟩, ?_⟩
  · have horderly := hlevels fields hfields level hlevel
    exact ⟨horderly, horderly.distinct⟩
  · exact (orderly_fieldLists hd m.createFields (.head _)).ascending hcreate
  · intro fields hfields level hlevel
    have hnames := textNames_outputs hd fields hfields
    have htexts : AllTexts level := Everywhere.forall_level (fun f hf => (hnames f hf).1)
      (fun f hf => (hnames f hf).2) level hlevel
    have hlisted : fields ∈ m.fieldLists := List.mem_append_right [_, _] hfields
    exact ⟨htexts, (hlevels fields hlisted level hlevel).ascending htexts⟩

/-- A tree that leads to itself is in order below the parents of the children of its parent. -/
theorem orderly_of_buildAll_tree :
    ∃ models registry, Sample.treeBuilder.buildAll {} = (.ok models, registry) ∧
      (∃ m ∈ models, ∃ f, OccursAt f Sample.steps m.modelFields) ∧
      ∀ m ∈ models,
        (∀ fields ∈ m.fieldLists, ∀ level, Level level fields →
          ((∃ f ∈ level, f.name.isText = true) → AllTexts level ∧ Ascending level) ∧
          DistinctTexts level) ∧
        (AllTexts m.createFields ∧ Ascending m.createFields) ∧
        ∀ fields ∈ [m.responseFields, m.modelFields], ∀ level, Level level fields →
          AllTexts level ∧ Ascending level := by
  obtain ⟨models, registry, h, hdeep⟩ := Sample.exists_of_any
    (x := Sample.treeBuilder.buildAll {}) (p := fun models => models.any fun m =>
      Sample.deep m.modelFields) (by decide +kernel)
  obtain ⟨m, hm, hdeep⟩ := List.any_eq_true.1 hdeep
  obtain ⟨f, hf, -⟩ := Sample.exists_of_deep hdeep
  exact ⟨models, registry, h, ⟨m, hm, f, hf⟩, orderly_of_buildAll h⟩

end Builder

end ApiModels
