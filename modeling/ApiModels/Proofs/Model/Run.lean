/-
ApiModels.Proofs.Model.Run — what a run leaves in the models and in the
registry.

Where the names in a document are sound, so are the fields that naming gets
(`Field.Sound`), on every side and for every plugin. A run then leaves a
registry whose names are those of the structs in the models
(`buildEach_spec`): every model's structs are registered, and the returned
fields are among those of the model.
-/
import ApiModels.Model.Run
import ApiModels.Proofs.Model.Resource

namespace ApiModels

namespace Field

/-! ## Fields whose names are of some form -/

/-- A name is of some form where a field that nests a struct has it, or a field inside has it. -/
def NamedBy (N : Scalar → Prop) (f : Field) : Prop :=
  (f.struct?.isSome = true → N f.name) ∧
    Everywhere (fun f => f.Fits ∧ ∀ g ∈ f.properties, N g.name) f

theorem named_joinable {N : Scalar → Prop} :
    Joinable fun f => ∀ p ∈ f.properties, N p.name := by
  intro f g h hf hg hj p hp
  rcases hj.names p hp with hmem | hmem
  · obtain ⟨q, hq, hname⟩ := List.mem_map.1 hmem
    exact hname ▸ hf q hq
  · obtain ⟨q, hq, hname⟩ := List.mem_map.1 hmem
    exact hname ▸ hg q hq

theorem Joins.struct?_isSome {f g h : Field} (hj : Joins f g h) :
    h.struct?.isSome = f.struct?.isSome := by
  have hitem := congrArg Option.isSome hj.item
  rw [Option.isSome_map, Option.isSome_map] at hitem
  unfold struct?
  rw [hj.kind]
  split
  · rfl
  · split
    · exact hitem
    · rfl

theorem structName_joinable {N : Scalar → Prop} :
    Joinable fun f => f.struct?.isSome = true → N f.name := by
  intro f g h hf _ hj hsome
  rw [hj.name]
  exact hf (hj.struct?_isSome ▸ hsome)

theorem structName_restate_eq {N : Scalar → Prop} {e : FieldInfo → FieldInfo} (he : Keeps e)
    {f g : Field} (hfg : restate e f = restate e g) (h : f.struct?.isSome = true → N f.name) :
    g.struct?.isSome = true → N g.name := by
  have hstruct : f.struct?.isSome = g.struct?.isSome := by
    have := congrArg (fun f => Option.isSome (struct? f)) hfg
    simpa only [struct?_restate he, Option.isSome_map] using this
  exact fun hsome => he.name_eq hfg ▸ h (hstruct ▸ hsome)

theorem named_restate_eq {N : Scalar → Prop} {e : FieldInfo → FieldInfo} (he : Keeps e)
    {f g : Field} (hfg : restate e f = restate e g) (h : ∀ p ∈ f.properties, N p.name) :
    ∀ q ∈ g.properties, N q.name := by
  intro q hq
  obtain ⟨p, hp, hpq⟩ := exists_restate_eq (properties_restate_eq hfg).symm hq
  exact he.name_eq hpq ▸ h p hp

theorem namedBy_restate_eq {N : Scalar → Prop} {e : FieldInfo → FieldInfo} (he : Keeps e)
    {fields fields' : List Field} (heq : fields.map (restate e) = fields'.map (restate e))
    (h : ∀ f ∈ fields, NamedBy N f) : ∀ f ∈ fields', NamedBy N f := by
  intro g hg
  obtain ⟨f, hf, hfg⟩ := exists_restate_eq heq.symm hg
  obtain ⟨hname, hinside⟩ := h f hf
  refine ⟨structName_restate_eq he hfg hname, hinside.restate_eq (fun p q hpq hp => ?_) g hfg⟩
  exact ⟨hp.1.restate_eq he hpq, named_restate_eq he hpq hp.2⟩

theorem Scalar.Lettered.titled {name : Scalar} (h : name.Lettered) (htext : name.isText = true) :
    Name.titled name.display ≠ "" := by
  obtain ⟨s, rfl⟩ := Scalar.isText_iff.1 htext
  exact Name.titled_ne_empty (h s rfl)

/-- Where names have letters, the paths through fields that can be named are not empty. -/
theorem NamedBy.titled {f : Field} (h : NamedBy Scalar.Lettered f) (hnameable : nameable f = true) :
    (f.struct?.isSome = true → Name.titled f.name.display ≠ "") ∧ Everywhere TitledInside f := by
  have htext := names_isText (h.2.imp fun _ hf => hf.1) fun s hs => nameable_of_struct hnameable hs
  refine ⟨fun hs => Scalar.Lettered.titled (h.1 hs) (isText_of_nameable hnameable), ?_⟩
  exact (htext.and h.2).imp fun g hg p hp => Scalar.Lettered.titled (hg.2.2 p hp) (hg.1 p hp)

/-! ## Fields with sound names -/

/-- A field as naming gets it: in the form that schemas give, with names that are sound. -/
def Sound (f : Field) : Prop :=
  (f.struct?.isSome = true → f.name.Sound) ∧ Everywhere (fun f => f.Shaped ∧ f.SoundNames) f

theorem Sound.lettered {f : Field} (h : f.Sound) : NamedBy Scalar.Lettered f :=
  ⟨fun hs => (h.1 hs).lettered,
    h.2.imp fun _ hf => ⟨hf.1.fits, fun g hg => (hf.2.properties g hg).lettered⟩⟩

theorem shaped_joinable : Joinable Shaped := fun f g h hf hg hj =>
  ⟨fits_joinable f g h hf.fits hg.fits hj, hj.attrTypeRef.trans hf.unnamed⟩

theorem soundNames_joinable : Joinable SoundNames := fun f g h hf hg hj =>
  ⟨hj.refName ▸ hf.refName, named_joinable f g h hf.properties hg.properties hj⟩

theorem sound_restate_eq {fields fields' : List Field}
    (heq : fields.map (restate outline) = fields'.map (restate outline))
    (h : ∀ f ∈ fields, f.Sound) : ∀ f ∈ fields', f.Sound := by
  intro g hg
  obtain ⟨f, hf, hfg⟩ := exists_restate_eq heq.symm hg
  refine ⟨structName_restate_eq keeps_outline hfg (h f hf).1, (h f hf).2.restate_eq ?_ g hfg⟩
  rintro f g hfg ⟨hshaped, hnames⟩
  have hinfo := info_restate_eq hfg
  have href : f.refName = g.refName := by
    simpa [outline] using congrArg FieldInfo.refName hinfo
  have hunnamed : f.attrTypeRef = g.attrTypeRef := by
    simpa [outline] using congrArg FieldInfo.attrTypeRef hinfo
  exact ⟨⟨hshaped.fits.restate_eq keeps_outline hfg, hunnamed ▸ hshaped.unnamed⟩,
    href ▸ hnames.refName, named_restate_eq keeps_outline hfg hnames.properties⟩

theorem Scalar.Sound.unmarked {name : Scalar} (h : name.Sound) (htext : name.isText = true) :
    name.Unmarked := by
  obtain ⟨s, rfl⟩ := Scalar.isText_iff.1 htext
  exact ⟨s, rfl, (h s rfl).1⟩

/-- Sound fields that can be named are ready for it. -/
theorem Sound.ready {f : Field} (h : f.Sound) (hnameable : nameable f = true) : f.Ready := by
  have hfits : Everywhere Fits f := h.2.imp fun _ hf => hf.1.fits
  have htext := names_isText hfits fun s hs => nameable_of_struct hnameable hs
  have hname := isText_of_nameable hnameable
  refine ⟨fun hs => Scalar.Sound.unmarked (h.1 hs) hname, hfits, ?_, ?_⟩
  · exact h.2.imp fun _ hf _ => hf.1.unnamed
  · exact (htext.and h.2).imp fun g hg =>
      ⟨fun p hp => Scalar.Sound.unmarked (hg.2.2.properties p hp) (hg.1 p hp), hg.2.2.refName⟩

end Field

namespace Builder

variable {b : Builder}

theorem Plain.struct?_eq_none {info : FieldInfo} (h : Plain info) :
    (Field.leaf info).struct? = none := by
  unfold Field.struct?
  rw [if_neg (by simpa [Field.leaf] using h.kind)]
  split <;> rfl

theorem kept_sound (hnames : b.document.NamesSound) (d : Definition) : b.Kept d Field.Sound := by
  refine kept_of_joinable (Field.shaped_joinable.and Field.soundNames_joinable)
    Field.structName_joinable (fun f hf => hf.1.fits) ?_ ?_
  · intro node fields hnode h f hf
    obtain ⟨hname, hinside⟩ := Extractor.extract_names hnames hnode h f hf
    refine ⟨fun _ => hname, ?_⟩
    exact ((Extractor.extract_shaped h f hf).and hinside).imp fun _ hg => ⟨hg.1.1, hg.2⟩
  · intro info hinfo _
    refine ⟨fun hsome => ?_, ⟨hinfo.fits, hinfo.unnamed⟩, ?_⟩
    · rw [hinfo.struct?_eq_none] at hsome
      cases hsome
    · exact ⟨(hinfo.refName ▸ unmarked_empty : Unmarked info.refName), by simp [Field.leaf]⟩

/-! ## Drafts -/

/-- What is kept, and still holds where outlines agree, holds of the fields of a draft. -/
theorem Drafting.modelFields_of_kept {r : ResourceSettings} {d : Draft} (s : Drafting b r d)
    (hs : s.LeadsTo) {T : Field → Prop} (hkept : b.Kept (.resource r) T)
    (houtline : ∀ {fields fields' : List Field}, fields.map (Field.restate Field.outline) =
      fields'.map (Field.restate Field.outline) → (∀ f ∈ fields, T f) → ∀ f ∈ fields', T f) :
    ∀ f ∈ d.modelFields, T f := by
  have hsettled := houtline s.outline_settled.symm (s.demanded_of_kept hkept)
  have hsorted : ∀ f ∈ Field.sortByName s.settled, T f :=
    fun f hf => hsettled f (Field.mem_sortByName.1 hf)
  rw [hs.modelFields]
  exact houtline (Field.map_restate_comp Field.outline_silent
    (s.silent_marked s.settled)).symm hsorted

/-- The same of the fields of a data source. -/
theorem shown_of_kept {s : DataSourceSettings} {raw : List Field}
    (hraw : b.dataSourceFields s.baseOperationId = .ok raw) {T : Field → Prop}
    (hkept : b.Kept (.dataSource s) T)
    (houtline : ∀ {fields fields' : List Field}, fields.map (Field.restate Field.outline) =
      fields'.map (Field.restate Field.outline) → (∀ f ∈ fields, T f) → ∀ f ∈ fields', T f)
    (label : String) :
    ∀ f ∈ Field.skipExcludedAll b.extractor.policy [] (.text "") (Field.sortByName
      (Field.markDataSourceAll (Field.describeAll label raw))), T f := by
  have hshown := houtline (outline_shown label raw).symm (hkept.dataSource hraw)
  refine houtline (Field.map_restate_comp Field.outline_unskipped
    (Field.restate_skipExcludedAll _ _ _ _)).symm fun f hf => ?_
  exact hshown f (Field.mem_sortByName.1 hf)

/-! ## Models -/

/-- A model whose structs are registered, with returned fields that are fields of the model. -/
structure Modelled (r : NameRegistry) (m : ResourceModel) : Prop where
  proper : ∀ f ∈ m.modelFields, Field.Proper r f
  response : m.responseFields ⊆ m.modelFields

/-- Models were built with a registry that was one and is another then. -/
structure Ran (models : List ResourceModel) (r r' : NameRegistry) : Prop where
  readable : r'.Readable
  within : r.Within r'
  modelled : ∀ m ∈ models, Modelled r' m
  names : ∀ name ∈ r'.names,
    name ∈ r.names ∨ ∃ m ∈ models, ∃ s, Field.Nests s m.modelFields ∧ s.attrTypeRef = name

namespace Ran

theorem nil {r : NameRegistry} (hr : r.Readable) : Ran [] r r :=
  ⟨hr, .refl r, nofun, fun _ h => .inl h⟩

theorem cons {m : ResourceModel} {models : List ResourceModel} {r r' r'' : NameRegistry}
    (h : Ran [m] r r') (h' : Ran models r' r'') : Ran (m :: models) r r'' where
  readable := h'.readable
  within := h.within.trans h'.within
  modelled := by
    have hm := h.modelled m List.mem_cons_self
    refine List.forall_mem_cons.2 ⟨⟨fun f hf => ?_, hm.response⟩, h'.modelled⟩
    exact (hm.proper f hf).mono h'.within
  names := by
    intro name hname
    rcases h'.names name hname with hold | ⟨m', hm', hs⟩
    · refine (h.names name hold).imp id ?_
      rintro ⟨m', hm', hs⟩
      exact ⟨m', List.mem_singleton.1 hm' ▸ List.mem_cons_self, hs⟩
    · exact .inr ⟨m', List.mem_cons_of_mem _ hm', hs⟩

end Ran

/--
Where no struct is left without a name, the fields of a model are the ones that were named, what is
returned are some of them, and naming that has added nothing.
-/
theorem ComesOf.returned {fields response : List Field} {r r' : NameRegistry} {m : ResourceModel}
    (h : ComesOf fields response r r' m) (hr : r.Titled)
    (hlettered : ∀ f ∈ fields, Field.NamedBy Scalar.Lettered f)
    (hsub : (∀ f ∈ response, f.name.isText = true) → response ⊆ fields) :
    Field.nameStructs "" r fields = (.ok m.modelFields, r') ∧
      m.responseFields ⊆ m.modelFields ∧ r'.Titled := by
  obtain ⟨named, between, hnamed, hresponse, hmodel⟩ := h
  obtain ⟨hnameable, hassign⟩ := Field.nameStructs_eq_ok_iff.1 hnamed
  obtain ⟨hnameable', hassign'⟩ := Field.nameStructs_eq_ok_iff.1 hresponse
  have hbetween : between.Titled := by
    have hconsistent := (Field.grown_assignAll "" r fields).consistent hr.consistent
    have hnonempty := Field.names_assignAll_ne_empty "" hr.nonempty fun f hf =>
      (hlettered f hf).titled (Field.nameableAll_iff.1 hnameable f hf)
    rw [hassign] at hconsistent hnonempty
    exact ⟨hconsistent, hnonempty⟩
  have hall := Field.named_assignAll "" r fields
  have hagain := Field.assignAll_of_subset "" r between
    (hsub fun f hf => Field.isText_of_nameable (Field.nameableAll_iff.1 hnameable' f hf))
    (by rw [hassign]; exact .refl _)
  rw [hassign] at hall hagain
  rw [hassign'] at hagain
  have hsame : m.modelFields = named :=
    hmodel.trans (Field.collectAll_fst {} named (Field.Named.ref_ne_empty hbetween hall))
  obtain ⟨hreturned, rfl⟩ : m.responseFields ⊆ named ∧ r' = between := hagain
  exact ⟨hsame ▸ hnamed, hsame ▸ hreturned, hbetween⟩

/-- Fields that are named a second time are named as they were. -/
theorem ComesOf.response_eq {fields : List Field} {r r' : NameRegistry} {m : ResourceModel}
    (h : ComesOf fields fields r r' m)
    (hmodel : Field.nameStructs "" r fields = (.ok m.modelFields, r')) :
    m.responseFields = m.modelFields := by
  obtain ⟨named, between, hnamed, hresponse, -⟩ := h
  obtain ⟨-, hassign⟩ := Field.nameStructs_eq_ok_iff.1 hnamed
  obtain ⟨-, hassign'⟩ := Field.nameStructs_eq_ok_iff.1 hresponse
  have hagain := Field.assignAll_again "" "" r between fields (by rw [hassign]; exact .refl _)
  rw [hassign, hassign'] at hagain
  rw [hnamed] at hmodel
  cases hmodel
  exact (Prod.mk.inj hagain).1

/-- A model that comes of sound fields, with returned fields among them. -/
theorem ComesOf.ran {fields response : List Field} {r r' : NameRegistry} {m : ResourceModel}
    (h : ComesOf fields response r r' m) (hr : r.Readable) (hsound : ∀ f ∈ fields, f.Sound)
    (hsub : (∀ f ∈ response, f.name.isText = true) → response ⊆ fields) : Ran [m] r r' := by
  have hnameable : ∀ f ∈ fields, Field.nameable f = true := by
    obtain ⟨named, between, hnamed, -⟩ := h
    exact Field.nameableAll_iff.1 (Field.nameStructs_eq_ok_iff.1 hnamed).1
  have hready := fun f hf => (hsound f hf).ready (hnameable f hf)
  obtain ⟨hnamed, hreturned, htitled⟩ := h.returned hr.titled (fun f hf => (hsound f hf).lettered)
    hsub
  obtain ⟨-, hassign⟩ := Field.nameStructs_eq_ok_iff.1 hnamed
  have hlegible := Field.legible_assignAll hr.toLegible unmarked_empty hready
  have hproper := Field.proper_assignAll "" r hready
  have hwithin := (Field.grown_assignAll "" r fields).within
  have hnames := Field.names_assignAll "" r fields
  rw [hassign] at hlegible hproper hwithin hnames
  refine ⟨⟨hlegible, htitled.nonempty⟩, hwithin, ?_, ?_⟩
  · rw [List.forall_mem_singleton]
    exact ⟨hproper, hreturned⟩
  · intro name hname
    refine (hnames name hname).imp id ?_
    rintro ⟨⟨s, hs, href⟩, -⟩
    exact ⟨m, List.mem_singleton_self m, s, hs, href⟩

/-- Every definition that is built leaves a model whose structs are registered. -/
theorem definition_spec (hnames : b.document.NamesSound) {d : Definition} {r r' : NameRegistry}
    {m : ResourceModel} (hr : r.Readable) (h : b.definition d r = (.ok m, r')) :
    Ran [m] r r' := by
  cases d with
  | resource settings =>
    obtain ⟨draft, hdraft, hcomes, -⟩ := resource_spec h
    obtain ⟨s, hs⟩ := draft_spec hdraft
    exact hcomes.ran hr (s.modelFields_of_kept hs (kept_sound hnames _) Field.sound_restate_eq)
      (s.response_subset hs)
  | dataSource settings =>
    obtain ⟨raw, fields, hraw, rfl, hcomes, -⟩ := dataSource_spec h
    exact hcomes.ran hr (shown_of_kept hraw (kept_sound hnames _) Field.sound_restate_eq _)
      fun _ => List.Subset.refl _

/-- What building leaves of a described field: all but its flags and the name of its struct. -/
def wording (f : FieldInfo) : FieldInfo := Field.withoutRef (Field.unskipped (Field.worded f))

theorem keeps_wording : Field.Keeps wording :=
  ⟨fun _ => rfl, fun _ => rfl, fun _ => rfl, fun _ => rfl⟩

/-- Fields that are described, settled, sorted, marked and named are, by wording, the described. -/
theorem ComesOf.exists_described {raw settled fields response : List Field} {label : String}
    {r r' : NameRegistry} {m : ResourceModel} (hcomes : ComesOf fields response r r' m)
    (hmarked : fields.map (Field.restate Field.unskipped) =
      (Field.sortByName settled).map (Field.restate Field.unskipped))
    (hsettled : settled.map (Field.restate Field.worded) =
      (Field.describeAll label raw).map (Field.restate Field.worded)) :
    ∀ g ∈ m.modelFields, ∃ f ∈ raw,
      Field.restate wording (Field.describe label f) = Field.restate wording g := by
  have hunskipped : ∀ info, wording (Field.unskipped info) = wording info := fun _ => rfl
  have hworded : ∀ info, wording (Field.worded info) = wording info := fun _ => rfl
  have hnamed : ∀ info, wording (Field.withoutRef info) = wording info := fun _ => rfl
  intro g hg
  obtain ⟨g₁, hg₁, h₁⟩ := Field.exists_restate_eq hcomes.restate_modelFields hg
  obtain ⟨g₂, hg₂, h₂⟩ := Field.exists_restate_eq hmarked hg₁
  obtain ⟨g₃, hg₃, h₃⟩ := Field.exists_restate_eq hsettled (Field.mem_sortByName.1 hg₂)
  rw [Field.describeAll_eq] at hg₃
  obtain ⟨f, hf, rfl⟩ := List.mem_map.1 hg₃
  exact ⟨f, hf, (Field.restate_mono hworded h₃).trans
    ((Field.restate_mono hunskipped h₂).trans (Field.restate_mono hnamed h₁))⟩

/-- The fields of a model are, flags and names of structs aside, described ones that are kept. -/
theorem exists_described_of_definition {d : Definition} {T : Field → Prop} (hkept : b.Kept d T)
    {r r' : NameRegistry} {m : ResourceModel} (h : b.definition d r = (.ok m, r')) :
    ∀ g ∈ m.modelFields, ∃ f, T f ∧
      Field.restate wording (Field.describe (Name.spaced m.name) f) = Field.restate wording g := by
  intro g hg
  cases d with
  | resource settings =>
    obtain ⟨draft, hdraft, hcomes, hfinishes⟩ := resource_eq_ok h
    obtain ⟨s, hs⟩ := draft_spec hdraft
    rw [hs.modelFields] at hcomes
    obtain ⟨f, hf, heq⟩ := hcomes.exists_described (s.unskipped_marked _) s.worded_settled g hg
    exact ⟨f, s.demanded_of_kept hkept f hf, hfinishes.name ▸ heq⟩
  | dataSource settings =>
    obtain ⟨raw, fields, hraw, rfl, hcomes, -⟩ := dataSource_spec h
    obtain ⟨f, hf, heq⟩ := hcomes.exists_described (Field.restate_skipExcludedAll _ _ _ _)
      (Field.restate_markDataSourceAll _) g hg
    exact ⟨f, hkept.dataSource hraw f hf, heq⟩

/-- Every model of a run is that of a definition, built with the registry of its turn. -/
theorem exists_definition_of_buildEach {definitions : List Definition} :
    ∀ {r r' : NameRegistry} {models : List ResourceModel},
      b.buildEach r definitions = (.ok models, r') → ∀ m ∈ models,
      ∃ d ∈ definitions, ∃ between after, b.definition d between = (.ok m, after) := by
  induction definitions with
  | nil =>
    intro r r' models h
    cases h
    exact nofun
  | cons d rest ih =>
    intro r r' models h
    rw [buildEach] at h
    split at h
    · cases h
    · rename_i m between hm
      split at h
      · cases h
      · rename_i others after hothers
        cases h
        refine List.forall_mem_cons.2 ⟨⟨d, List.mem_cons_self, r, between, hm⟩, fun m' hm' => ?_⟩
        obtain ⟨d', hd', hrun⟩ := ih hothers m' hm'
        exact ⟨d', List.mem_cons_of_mem _ hd', hrun⟩

theorem buildEach_spec (hnames : b.document.NamesSound) {definitions : List Definition} :
    ∀ {r r' : NameRegistry} {models : List ResourceModel}, r.Readable →
      b.buildEach r definitions = (.ok models, r') → Ran models r r' := by
  induction definitions with
  | nil =>
    intro r r' models hr h
    cases h
    exact .nil hr
  | cons d rest ih =>
    intro r r' models hr h
    rw [buildEach] at h
    split at h
    · cases h
    · rename_i m between hm
      split at h
      · cases h
      · rename_i others after hothers
        cases h
        have hfirst := definition_spec hnames hr hm
        exact hfirst.cons (ih hfirst.readable hothers)

end Builder

end ApiModels
