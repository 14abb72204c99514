/-
ApiModels.Proofs.Model.Shown — what a data source shows.

The fields of a data source are walked from one node of the document: the
schema of what is retrieved or, where nothing is, that of the items which
are listed (`Builder.Shows`). All that becomes of them afterwards is that
every descriptor, on any level, is marked as one that is only shown
(`Field.Viewed`). No field is lost on the way, none is added and none is
moved; and a data source without a schema has no fields, but is no failure
(`dataSource_shows`).
-/
import ApiModels.Proofs.Model.Checked
import ApiModels.Proofs.Model.Returned

namespace ApiModels

namespace Field

/-! ## Descriptors that are only shown -/

/-- A descriptor belongs to a data source; it cannot be set, so it need not be given. -/
structure Viewed (f : Field) : Prop where
  isDataSource : f.isDataSource = true
  readOnly : f.readOnly = true
  optional : f.required = false

theorem everywhere_markDataSource (f : Field) : Everywhere Viewed (markDataSource f) := by
  induction f with
  | mk info item properties ihItem ihProperties =>
    rw [markDataSource, markDataSourceAll_eq]
    refine .intro ⟨rfl, rfl, rfl⟩ ?_ (List.forall_mem_map.2 ihProperties)
    intro i hi
    cases item with
    | none => cases hi
    | some j =>
      cases hi
      exact ihItem j rfl

theorem Viewed.restate_eq {f g : Field} (heq : restate role f = restate role g) (h : f.Viewed) :
    g.Viewed := by
  have hinfo := info_restate_eq heq
  refine ⟨?_, ?_, ?_⟩
  · exact (congrArg FieldInfo.isDataSource hinfo).symm.trans h.isDataSource
  · exact (congrArg FieldInfo.readOnly hinfo).symm.trans h.readOnly
  · exact (congrArg FieldInfo.required hinfo).symm.trans h.optional

end Field

namespace Builder

open ApiModels.Field (AllTexts Ascending Describes Everywhere Viewed restate role typing)

variable {b : Builder} {base : Value} {fields : List Field}

/-! ## Where the fields are walked from -/

/-- The list operation tells nothing of its items. -/
inductive Unlisted (b : Builder) (base : Value) : Prop where
  | missing {part} (h : b.document.responseSchema (ResourceSettings.derivedId base "list") =
      .error (.missing part))
  | nowhere {node n} (hnode : b.document.responseSchema (ResourceSettings.derivedId base "list") =
      .ok node) (h : b.document.resolve node = .ok ⟨none, n⟩)
  | noItems {node list n type}
      (hnode : b.document.responseSchema (ResourceSettings.derivedId base "list") = .ok node)
      (hlist : b.document.resolve node = .ok ⟨some list, n⟩)
      (htype : b.extractor.schemaType list = .ok type)
      (h : type = .array → list.get? "items" = none)

/-- A data source walks to these fields, without the identifier on the first level. -/
inductive Shows (b : Builder) (base : Value) (fields : List Field) : Prop where
  | retrieved {node}
      (hnode : b.document.responseSchema (ResourceSettings.derivedId base "retrieve") = .ok node)
      (hwalk : b.extractor.extract node = .ok fields)
  | listed {part node list n items}
      (hnone : b.document.responseSchema (ResourceSettings.derivedId base "retrieve") =
        .error (.missing part))
      (hnode : b.document.responseSchema (ResourceSettings.derivedId base "list") = .ok node)
      (hlist : b.document.resolve node = .ok ⟨some list, n⟩)
      (htype : b.extractor.schemaType list = .ok .array)
      (hitems : list.get? "items" = some items) (hwalk : b.extractor.extract items = .ok fields)
  | nothing {part}
      (hnone : b.document.responseSchema (ResourceSettings.derivedId base "retrieve") =
        .error (.missing part))
      (hlist : b.Unlisted base) (hempty : fields = [])

theorem listItemFields_shows {part : MissingPart}
    (hnone : b.document.responseSchema (ResourceSettings.derivedId base "retrieve") =
      .error (.missing part))
    (h : b.listItemFields (ResourceSettings.derivedId base "list") = .ok fields) :
    b.Shows base fields := by
  unfold listItemFields at h
  split at h
  · rename_i hmissing
    cases h
    exact .nothing hnone (.missing hmissing) rfl
  · cases h
  · rename_i node hnode
    rw [Result.bind_eq_ok] at h
    obtain ⟨⟨list?, n⟩, hresolve, h⟩ := h
    cases list? with
    | none =>
      cases h
      exact .nothing hnone (.nowhere hnode hresolve) rfl
    | some list =>
      rw [Result.bind_eq_ok] at h
      obtain ⟨type, htype, h⟩ := h
      split at h
      · rename_i hitems
        exact .listed hnone hnode hresolve htype hitems h
      · rename_i hother
        cases h
        refine .nothing hnone (.noItems hnode hresolve htype ?_) rfl
        rintro rfl
        cases hitems : list.get? "items" with
        | none => rfl
        | some items => exact absurd hitems (hother items rfl)

theorem dataSourceFields_shows (h : b.dataSourceFields base = .ok fields) :
    b.Shows base fields := by
  unfold dataSourceFields at h
  split at h
  · rename_i hnode
    exact .retrieved hnode h
  · rename_i hnone
    exact listItemFields_shows hnone h
  · cases h

/-! ## What becomes of them -/

/-- Fields in order stay where they are when they are described, marked and sorted. -/
theorem sortByName_shown (label : String) {raw : List Field} (htexts : AllTexts raw)
    (hraw : Ascending raw) :
    Field.sortByName (Field.markDataSourceAll (Field.describeAll label raw)) =
      Field.markDataSourceAll (Field.describeAll label raw) := by
  have hnames := Field.names_restate_eq Field.keeps_outline (outline_shown label raw)
  rw [Ascending, ← hnames] at hraw
  exact Field.Ascending.sortByName_eq (htexts.of_names_eq hnames.symm) hraw

/-- Both lists of a data source say what the walked fields say, once described and marked. -/
theorem roles_shown {s : DataSourceSettings} {registry registry' : NameRegistry}
    {m : ResourceModel} (h : b.dataSource s registry = (.ok m, registry')) :
    ∃ walked, b.dataSourceFields s.baseOperationId = .ok walked ∧
      ∀ fields ∈ [m.modelFields, m.responseFields], fields.map (restate role) =
        (Field.markDataSourceAll (Field.describeAll (Name.spaced m.name) walked)).map
          (restate role) := by
  obtain ⟨walked, marked, hwalked, rfl, hcomes, -⟩ := dataSource_spec h
  have hm : b.definition (.dataSource s) registry = (.ok m, registry') := h
  have hunskipped := Field.map_restate_comp Field.role_unskipped
    (Field.restate_skipExcludedAll b.extractor.policy [] (.text "")
      (Field.sortByName (Field.markDataSourceAll
        (Field.describeAll (Name.spaced m.name) walked))))
  have hmodel := hcomes.role_modelFields.trans hunskipped
  -- A model has texts as names, and sorting is the only step that could move a field.
  have htexts : AllTexts walked := by
    have hnamed : AllTexts m.modelFields :=
      fun f hf => (textNames_outputs hm m.modelFields (.tail _ (.head _)) f hf).1
    have hsorted := hnamed.of_names_eq (Field.names_restate_eq Field.keeps_role hmodel)
    exact ((Field.allTexts_perm (Field.sortByName_perm _)).1 hsorted).of_names_eq
      (Field.names_restate_eq Field.keeps_outline (outline_shown _ walked))
  have hascending := (dataSourceFields_orderly hwalked).ascending htexts
  refine ⟨walked, hwalked, ?_⟩
  rw [← sortByName_shown _ htexts hascending, List.forall_mem_cons, List.forall_mem_singleton]
  exact ⟨hmodel, hcomes.role_responseFields.trans hunskipped⟩

/--
A data source fails for no part that the document lacks. Where it is built, its fields and those it
returns are, by name and type on every level, those walked from what is retrieved or else from the
items that are listed; and every descriptor among them is marked as one that is only shown.
-/
theorem dataSource_shows {s : DataSourceSettings} {registry : NameRegistry} :
    (∀ part, (b.dataSource s registry).1 ≠ .error (.missing part)) ∧
    ∀ m registry', b.dataSource s registry = (.ok m, registry') →
      ∃ walked, b.Shows s.baseOperationId walked ∧
        ∀ fields ∈ [m.modelFields, m.responseFields],
          fields.map (restate typing) = walked.map (restate typing) ∧
          ∀ d, Describes d fields → Viewed d := by
  constructor
  · intro part he
    cases reads_dataSource b s registry _ he
  · intro m registry' h
    obtain ⟨walked, hwalked, hroles⟩ := roles_shown h
    have hviewed : ∀ f ∈ Field.markDataSourceAll
        (Field.describeAll (Name.spaced m.name) walked), Everywhere Viewed f := by
      rw [Field.markDataSourceAll_eq, List.forall_mem_map]
      exact fun f _ => Field.everywhere_markDataSource f
    refine ⟨walked, dataSourceFields_shows hwalked, fun fields hfields => ⟨?_, fun d hd => ?_⟩⟩
    · exact (Field.map_restate_comp Field.typing_role (hroles fields hfields)).trans
        (Field.map_restate_comp Field.typing_outline (outline_shown _ walked))
    · have hall := Everywhere.forall_restate_eq (fun _ _ => Viewed.restate_eq)
        (hroles fields hfields).symm hviewed
      exact (Everywhere.of_describes hall hd).here

/-- A view of the machines shows the owner and the state of a machine. -/
theorem dataSource_shows_sample :
    ∃ m registry walked, Sample.builder.dataSource Sample.view {} = (.ok m, registry) ∧
      m.modelFields ≠ [] ∧ Sample.builder.Shows Sample.view.baseOperationId walked ∧
      ∀ fields ∈ [m.modelFields, m.responseFields],
        fields.map (restate typing) = walked.map (restate typing) ∧
        ∀ d, Describes d fields → Viewed d := by
  obtain ⟨m, registry, h, hshown⟩ := Sample.exists_of_any
    (x := Sample.builder.dataSource Sample.view {}) (p := fun m => !m.modelFields.isEmpty)
    (by decide +kernel)
  obtain ⟨walked, hwalked, hfields⟩ := dataSource_shows.2 m registry h
  exact ⟨m, registry, walked, h, by simpa using hshown, hwalked, hfields⟩

end Builder

end ApiModels
