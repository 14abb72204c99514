/-
ApiModels.Proofs.Model.Returned — what is returned is the model's own.

The fields of a resource and those that it returns are two lists. Their
structs are named apart, with one registry, and only those of the resource
are collected. `response_eq_model` says that they agree all the same: a
returned field is, with all that it says and all that is in it, the field of
that name of the resource. What this takes is that no struct is left without
a name (`Reached.titled`): then collecting changes nothing, and naming the
returned fields finds every name registered.
-/
import ApiModels.Proofs.Model.Ascending
import ApiModels.Proofs.Model.Export

namespace ApiModels

namespace Builder

open ApiModels.Field (Everywhere NamedBy nameStructs)

variable {b : Builder} {N : Scalar → Prop}

/-! ## Fields whose names have letters -/

/-- What holds of the names of properties in the document holds of the names of fields. -/
theorem kept_namedBy (hnames : b.document.NamesAre N) (d : Definition) :
    b.Kept d (NamedBy N) := by
  refine kept_of_joinable (Field.fits_joinable.and Field.named_joinable)
    Field.structName_joinable (fun f hf => hf.1) ?_ ?_
  · intro node fields hnode h f hf
    obtain ⟨hname, hinside⟩ := Extractor.extract_named hnames hnode h f hf
    have hfits := (Extractor.extract_shaped h f hf).imp fun _ hg => hg.1.fits
    exact ⟨fun _ => hname, hfits.and hinside⟩
  · intro info hinfo _
    refine ⟨fun hsome => ?_, hinfo.fits, by simp [Field.leaf]⟩
    -- It does not matter how a field is called that nests no struct.
    rw [hinfo.struct?_eq_none] at hsome
    cases hsome

/-! ## Registries of a run -/

/-- A registry that building some definitions, one after another, has led to. -/
inductive Reached (b : Builder) : NameRegistry → Prop where
  | start : Reached b {}
  | built {d r m r'} (hr : Reached b r) (h : b.definition d r = (.ok m, r')) : Reached b r'

variable {r r' : NameRegistry} {m : ResourceModel}

/-- What a resource returns, and the registry once the structs of its own fields are named. -/
theorem resource_returned (hnames : b.document.NamesAre Scalar.Lettered) (hr : r.Titled)
    {settings : ResourceSettings} (h : b.resource settings r = (.ok m, r')) :
    (∃ draft, b.draft settings = .ok draft ∧
      nameStructs "" r draft.modelFields = (.ok m.modelFields, r')) ∧
    m.responseFields ⊆ m.modelFields ∧ r'.Titled := by
  obtain ⟨draft, hdraft, hcomes, -⟩ := resource_spec h
  obtain ⟨s, hs⟩ := draft_spec hdraft
  obtain ⟨hnamed, hreturned, hr'⟩ := hcomes.returned hr
    (s.modelFields_of_kept hs (kept_namedBy hnames _)
      (Field.namedBy_restate_eq Field.keeps_outline))
    (s.response_subset hs)
  exact ⟨⟨draft, hdraft, hnamed⟩, hreturned, hr'⟩

theorem dataSource_returned (hnames : b.document.NamesAre Scalar.Lettered) (hr : r.Titled)
    {settings : DataSourceSettings} (h : b.dataSource settings r = (.ok m, r')) :
    m.responseFields = m.modelFields ∧ r'.Titled := by
  obtain ⟨raw, fields, hraw, rfl, hcomes, -⟩ := dataSource_spec h
  obtain ⟨hnamed, -, hr'⟩ := hcomes.returned hr
    (shown_of_kept hraw (kept_namedBy hnames _) (Field.namedBy_restate_eq Field.keeps_outline) _)
    fun _ => List.Subset.refl _
  exact ⟨hcomes.response_eq hnamed, hr'⟩

theorem Reached.titled (hnames : b.document.NamesAre Scalar.Lettered) (h : b.Reached r) :
    r.Titled := by
  induction h with
  | start => exact NameRegistry.titled_empty
  | @built d _ _ _ _ h ih =>
    cases d with
    | resource settings => exact (resource_returned hnames ih h).2.2
    | dataSource settings => exact (dataSource_returned hnames ih h).2

/-! ## What is returned -/

/--
Where names of properties have letters, each field that a resource returns is the one field of its
name in the model, and naming the structs of what is returned has left the registry as naming those
of the model did. What a data source returns is its model.
-/
theorem response_eq_model (hnames : b.document.NamesAre Scalar.Lettered) (hr : b.Reached r) :
    (∀ settings m r', b.resource settings r = (.ok m, r') →
      (∀ f ∈ m.responseFields, (m.modelFields.filter fun g => g.name.same f.name) = [f]) ∧
      ∃ draft, b.draft settings = .ok draft ∧
        nameStructs "" r draft.modelFields = (.ok m.modelFields, r')) ∧
    ∀ settings m r', b.dataSource settings r = (.ok m, r') →
      m.responseFields = m.modelFields := by
  refine ⟨fun settings m r' h => ?_, fun settings m r' h => ?_⟩
  · obtain ⟨hdraft, hreturned, -⟩ := resource_returned hnames (hr.titled hnames) h
    have hm : b.definition (.resource settings) r = (.ok m, r') := h
    have hlisted : m.modelFields ∈ m.fieldLists := by simp [ResourceModel.fieldLists]
    have hdistinct := (orderly_fieldLists hm m.modelFields hlisted).distinct
    refine ⟨fun f hf => ?_, hdraft⟩
    have htext := (textNames_outputs hm m.responseFields (.head _) f hf).1
    obtain ⟨t, ht⟩ := Scalar.isText_iff.1 htext
    rw [ht]
    exact Field.filter_same_text hdistinct ((Field.find?_text_iff hdistinct).2 ⟨hreturned hf, ht⟩)
  · exact (dataSource_returned hnames (hr.titled hnames) h).1

/-- A view of the machines. -/
def Sample.view : DataSourceSettings where
  name := .text "vm_view"
  baseOperationId := .text "vm"

/-- A machine whose owner is returned, and a view of it that is built after it. -/
theorem response_eq_model_sample :
    Sample.builder.document.NamesAre Scalar.Lettered ∧
    ∃ m r, Sample.builder.resource Sample.settings {} = (.ok m, r) ∧ Sample.builder.Reached r ∧
      m.responseFields ≠ [] ∧
      (∀ f ∈ m.responseFields, (m.modelFields.filter fun g => g.name.same f.name) = [f]) ∧
      ∃ view r', Sample.builder.dataSource Sample.view r = (.ok view, r') ∧
        view.responseFields ≠ [] ∧ view.responseFields = view.modelFields := by
  have hnames := Sample.namesSound.namesAre.mono fun _ => Scalar.Sound.lettered
  obtain ⟨m, r, hm, hreturns⟩ := Sample.exists_of_any
    (x := Sample.builder.resource Sample.settings {}) (p := fun m => !m.responseFields.isEmpty)
    (by decide +kernel)
  have hr : Sample.builder.Reached r := .built (d := .resource Sample.settings) .start hm
  obtain ⟨view, r', hview, hshows⟩ := Sample.exists_of_any
    (x := Sample.builder.dataSource Sample.view
      (Sample.builder.resource Sample.settings {}).2)
    (p := fun m => !m.responseFields.isEmpty) (by decide +kernel)
  rw [hm] at hview
  refine ⟨hnames, m, r, hm, hr, by simpa using hreturns, ?_, view, r', hview, by simpa using hshows,
    ?_⟩
  · exact ((response_eq_model hnames .start).1 _ m r hm).1
  · exact (response_eq_model hnames hr).2 _ view r' hview

end Builder

end ApiModels
