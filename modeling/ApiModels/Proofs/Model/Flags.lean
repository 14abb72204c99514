/-
ApiModels.Proofs.Model.Flags — who fills in the fields of a resource.

Between settling and the finished model only descriptions, names of structs
and marks for skipped fields are set, so what the flags of a model say is
what they said when they were settled (`role`, `Drafting.roles`). So for
every plugin no flag of a resource contradicts another, and what is
required is accepted at the same place.
-/
import ApiModels.Proofs.Field.Settle
import ApiModels.Proofs.Model.Resource
import ApiModels.Proofs.Struct.TextNames

namespace ApiModels

namespace Field

/-! ## What is settled stays -/

/-- What a field says apart from its description, the name of its struct, and its being skipped. -/
def role (f : FieldInfo) : FieldInfo := withoutRef (silent f)

theorem keeps_role : Keeps role := ⟨fun _ => rfl, fun _ => rfl, fun _ => rfl, fun _ => rfl⟩

theorem role_silent (info : FieldInfo) : role (silent info) = role info := rfl

theorem role_unskipped (info : FieldInfo) : role (unskipped info) = role info := rfl

theorem role_withoutRef (info : FieldInfo) : role (withoutRef info) = role info := rfl

/-- Who fills a field in, and what a change of it means, is part of its role. -/
theorem flags_of_role_eq {f g : FieldInfo} (heq : role f = role g) :
    f.readOnly = g.readOnly ∧ f.serverComputed = g.serverComputed ∧ f.required = g.required ∧
      f.useStateForUnknown = g.useStateForUnknown ∧ f.forceNew = g.forceNew := by
  have hflag : ∀ flag : FieldInfo → Bool, flag (role f) = flag (role g) :=
    fun flag => congrArg flag heq
  exact ⟨hflag FieldInfo.readOnly, hflag FieldInfo.serverComputed, hflag FieldInfo.required,
    hflag FieldInfo.useStateForUnknown, hflag FieldInfo.forceNew⟩

theorem Coherent.of_role_eq {f g : FieldInfo} (heq : role f = role g) (h : Coherent f) :
    Coherent g := by
  obtain ⟨hread, hcomputed, hrequired, hstate, -⟩ := flags_of_role_eq heq
  refine ⟨?_, ?_⟩
  · rw [← hread, ← hcomputed]
    exact h.readOnly
  · rw [← hcomputed, ← hrequired, ← hstate]
    exact h.serverComputed

/-- What one of two trees that are restated to the same one describes, the other describes. -/
theorem Describes.restate_eq {e : FieldInfo → FieldInfo} (he : Keeps e) {d : Field}
    {fields fields' : List Field} (heq : fields.map (restate e) = fields'.map (restate e))
    (h : Describes d fields) : ∃ d', Describes d' fields' ∧ restate e d' = restate e d := by
  rcases h with ⟨steps, hd⟩ | ⟨steps, f, hf, hitem⟩
  · obtain ⟨d', hd', hrestate⟩ := hd.restate_eq he heq
    exact ⟨d', .inl ⟨steps, hd'⟩, hrestate⟩
  · obtain ⟨f', hf', hrestate⟩ := hf.restate_eq he heq
    have hitems := item_restate_eq hrestate
    rw [hitem, Option.map_some] at hitems
    obtain ⟨d', hd', hd⟩ := Option.map_eq_some_iff.1 hitems
    exact ⟨d', .inr ⟨steps, f', hf', hd'⟩, hd⟩

theorem Describes.subset {d : Field} {fields fields' : List Field} (hsub : fields ⊆ fields')
    (h : Describes d fields) : Describes d fields' := by
  rcases h with ⟨steps, hd⟩ | ⟨steps, f, hf, hitem⟩
  · exact .inl ⟨steps, hd.subset hsub⟩
  · exact .inr ⟨steps, f, hf.subset hsub, hitem⟩

/-- Where all names are texts, so are those on the way to any place. -/
theorem textPlace_of_occursAt {d : Field} {steps : List Step} :
    ∀ {fields : List Field}, (∀ f ∈ fields, TextNames f) → OccursAt d steps fields →
      TextPlace steps d.name := by
  induction steps with
  | nil =>
    intro fields h hd
    exact ⟨nofun, (h d (occursAt_nil_iff.1 hd)).1⟩
  | cons step steps ih =>
    intro fields h hd
    obtain ⟨f, hf, hname, hd⟩ := occursAt_cons_iff.1 hd
    obtain ⟨htext, hinside⟩ := h f hf
    have hplace := ih (fun g hg => ⟨hinside.forall_inside step g hg, hinside.inside step g hg⟩) hd
    refine ⟨?_, hplace.name⟩
    rw [List.forall_mem_cons]
    exact ⟨hname ▸ htext, hplace.steps⟩

end Field

namespace Builder

open ApiModels.Field (Everywhere Fits IdleItem OccursAt Describes TextPlace restate role keeps_role)

variable {b : Builder} {r : ResourceSettings}

/-! ## From the fields of a draft to those of a model -/

namespace ComesOf

variable {model response : List Field} {registry registry' : NameRegistry} {m : ResourceModel}

theorem role_modelFields (h : ComesOf model response registry registry' m) :
    m.modelFields.map (restate role) = model.map (restate role) :=
  Field.map_restate_comp Field.role_withoutRef h.restate_modelFields

theorem role_responseFields (h : ComesOf model response registry registry' m) :
    m.responseFields.map (restate role) = response.map (restate role) :=
  Field.map_restate_comp Field.role_withoutRef h.restate_responseFields

theorem nameable (h : ComesOf model response registry registry' m) :
    (∀ f ∈ model, Field.nameable f = true) ∧ ∀ f ∈ response, Field.nameable f = true := by
  obtain ⟨named, between, hnamed, hresponse, -⟩ := h
  exact ⟨Field.nameableAll_iff.1 (Field.nameStructs_eq_ok_iff.1 hnamed).1,
    Field.nameableAll_iff.1 (Field.nameStructs_eq_ok_iff.1 hresponse).1⟩

end ComesOf

/-! ## Fields before they are settled -/

theorem kept_idle (b : Builder) (d : Definition) :
    b.Kept d fun f => True ∧ Everywhere (fun f => f.Fits ∧ f.IdleItem) f := by
  refine kept_of_joinable (Field.fits_joinable.and Field.idleItem_joinable)
    (fun _ _ _ _ _ _ => trivial) (fun f hf => hf.1) ?_ ?_
  · intro node fields _ h f hf
    refine ⟨trivial, (Extractor.extract_shaped h f hf).imp fun g hg => ⟨hg.1.fits, ?_⟩⟩
    intro i hi
    rw [hg.2 i hi]
    exact ⟨rfl, rfl, rfl⟩
  · exact fun info hinfo _ => ⟨trivial, hinfo.fits, nofun⟩

namespace Drafting

variable {d : Draft}

/-- The fields of the model before who fills them in is settled. -/
def unsettled (s : Drafting b r d) : List Field :=
  Field.deriveForceNew s.updatable (Field.describeAll (Name.spaced d.name) s.demanded)

theorem idle_unsettled (s : Drafting b r d) :
    ∀ f ∈ s.unsettled, Everywhere (fun f => f.Fits ∧ f.IdleItem) f := by
  have hdemanded : ∀ f ∈ s.demanded, Everywhere (fun f => f.Fits ∧ f.IdleItem) f :=
    fun f hf => (s.demanded_of_kept (kept_idle b (.resource r)) f hf).2
  have hdescribed := Everywhere.forall_restate_eq
    (fun f g heq hf => ⟨hf.1.restate_eq Field.keeps_silent heq, hf.2.restate_eq heq⟩)
    (Field.silent_describeAll (Name.spaced d.name) s.demanded).symm hdemanded
  intro f hf
  obtain ⟨g, hg, rfl⟩ := List.mem_map.1 hf
  exact Field.everywhere_info (Field.fits_joinable.and Field.idleItem_joinable)
    (hdescribed g hg) rfl rfl

theorem fits_unsettled (s : Drafting b r d) : ∀ f ∈ s.unsettled, Everywhere Fits f :=
  fun f hf => (s.idle_unsettled f hf).imp fun _ hg => hg.1

theorem fits_settled (s : Drafting b r d) : ∀ f ∈ s.settled, Everywhere Fits f :=
  Everywhere.forall_restate_eq (fun _ _ => Fits.restate_eq Field.keeps_worded)
    (Field.restate_settleAll s.accepted s.unsettled).symm s.fits_unsettled

/-- Marked fields that can be named play the roles of settled ones. -/
theorem roles_of_marked (s : Drafting b r d) {fields marked named : List Field}
    (hsub : fields ⊆ s.settled) (hmarked : marked = s.marked fields)
    (hnameable : ∀ f ∈ marked, Field.nameable f = true)
    (hnamed : named.map (restate role) = marked.map (restate role)) :
    (∀ f ∈ named, f.TextNames) ∧
      named.map (restate role) = (Field.sortByName fields).map (restate role) := by
  have hsilent := s.silent_marked fields
  rw [← hmarked] at hsilent
  have hfits : ∀ f ∈ marked, Everywhere Fits f :=
    Everywhere.forall_restate_eq (fun _ _ => Fits.restate_eq Field.keeps_silent) hsilent.symm
      fun f hf => s.fits_settled f (hsub (Field.mem_sortByName.1 hf))
  exact ⟨Field.textNames_restate_eq keeps_role hnamed.symm fun f hf =>
      Field.textNames_of_nameable (hfits f hf) (hnameable f hf),
    hnamed.trans (Field.map_restate_comp Field.role_silent hsilent)⟩

/-- A settled field says what is said at its place before describing, forced and settled. -/
theorem occursAt_settled (s : Drafting b r d) {g : Field} {steps : List Field.Step}
    (hg : OccursAt g steps s.settled) :
    ∃ w, OccursAt w steps s.demanded ∧ w.name = g.name ∧
      role g.toFieldInfo =
        role (Field.settleInfo (Field.atLast? s.accepted steps g.name).isSome
          (Field.forcedInfo s.updatable steps w.toFieldInfo)) := by
  obtain ⟨u, hu, hsettled⟩ := Field.occursAt_settleAll s.fits_unsettled hg
  obtain ⟨v, hv, hforced⟩ := Field.occursAt_deriveForceNew hu
  obtain ⟨w, hw, hwv⟩ := hv.restate_eq Field.keeps_silent (Field.silent_describeAll _ _)
  have hinfo : Field.silent w.toFieldInfo = Field.silent v.toFieldInfo := Field.info_restate_eq hwv
  -- Neither step looks at what describing changes.
  have hsilent : ∀ accepted info,
      role (Field.settleInfo accepted (Field.forcedInfo s.updatable steps (Field.silent info))) =
        role (Field.settleInfo accepted (Field.forcedInfo s.updatable steps info)) :=
    fun _ _ => rfl
  have hname : w.name = g.name := by
    rw [Field.keeps_silent.name_eq hwv, hsettled, Field.settle_name]
    exact (congrArg FieldInfo.name hforced).symm
  refine ⟨w, hw, hname, ?_⟩
  rw [← hsilent, hinfo, hsilent, ← hforced,
    ← Field.settle_info (Everywhere.of_occursAt s.fits_unsettled hu).here, ← hsettled]

/-- The fields of a model, the returned ones too, play the roles of settled fields. -/
theorem roles (s : Drafting b r d) (hs : s.LeadsTo) {registry registry' : NameRegistry}
    {m : ResourceModel} (h : ComesOf d.modelFields d.responseFields registry registry' m)
    {named : List Field} (hnamed : named ∈ [m.modelFields, m.responseFields]) :
    (∀ f ∈ named, f.TextNames) ∧
      ∃ fields ⊆ s.settled, named.map (restate role) = fields.map (restate role) := by
  obtain ⟨hmodel, hresponse⟩ := h.nameable
  have hsub : ∀ {fields : List Field}, fields ⊆ s.settled → Field.sortByName fields ⊆ s.settled :=
    fun hsub f hf => hsub (Field.mem_sortByName.1 hf)
  simp only [List.mem_cons, List.not_mem_nil, or_false] at hnamed
  rcases hnamed with rfl | rfl
  · obtain ⟨htext, heq⟩ := s.roles_of_marked (List.Subset.refl _) hs.modelFields hmodel
      h.role_modelFields
    exact ⟨htext, _, hsub (List.Subset.refl _), heq⟩
  · have haligned := s.aligned_subset hs fun f hf => Field.isText_of_nameable (hresponse f hf)
    obtain ⟨htext, heq⟩ := s.roles_of_marked haligned hs.responseFields hresponse
      h.role_responseFields
    exact ⟨htext, _, hsub haligned, heq⟩

end Drafting

/-! ## Flags do not contradict each other -/

/--
Whatever is described in a resource, on any level: what is read-only is the server's, what is the
server's is never required and keeps its state while it is unknown, and a field that is required
is accepted on creation at the same place.
-/
theorem flags_consistent {registry registry' : NameRegistry} {m : ResourceModel}
    (h : b.resource r registry = (.ok m, registry')) :
    ∀ fields ∈ [m.modelFields, m.responseFields],
      (∀ d, Describes d fields →
        (d.readOnly = true → d.serverComputed = true) ∧
        (d.serverComputed = true → d.required = false ∧ d.useStateForUnknown = true) ∧
        (d.required = true → d.readOnly = false ∧ d.serverComputed = false)) ∧
      ∀ d steps, OccursAt d steps fields → d.required = true →
        ∃ c, OccursAt c steps m.createFields ∧ c.name = d.name := by
  obtain ⟨draft, hdraft, hcomes, hcreate, -⟩ := resource_spec h
  obtain ⟨s, hs⟩ := draft_spec hdraft
  intro fields hfields
  obtain ⟨htext, settled, hsub, heq⟩ := s.roles hs hcomes hfields
  constructor
  · intro d hd
    obtain ⟨g, hg, hgd⟩ := hd.restate_eq keeps_role heq
    have hcoherent := (Field.coherent_settleAll s.idle_unsettled (hg.subset hsub)).of_role_eq
      (Field.info_restate_eq hgd)
    exact ⟨hcoherent.readOnly, hcoherent.serverComputed, hcoherent.required⟩
  · intro d steps hd hrequired
    obtain ⟨g, hg, hgd⟩ := hd.restate_eq keeps_role heq
    have hname := keeps_role.name_eq hgd
    have hplace := Field.textPlace_of_occursAt htext hd
    obtain ⟨-, -, hsame, -⟩ := Field.flags_of_role_eq (Field.info_restate_eq hgd)
    obtain ⟨c, hc, hcname⟩ := Field.accepted_settleAll s.fits_unsettled (hg.subset hsub)
      (hname ▸ hplace) (hsame.trans hrequired)
    refine ⟨c, ?_, hcname.trans hname⟩
    rw [hcreate, hs.createFields]
    exact hc.perm (Field.sortByName_perm _).symm

theorem flags_consistent_sample :
    ∃ m registry, Sample.builder.resource Sample.settings {} = (.ok m, registry) ∧
      ∀ fields ∈ [m.modelFields, m.responseFields], ∀ d, Describes d fields →
        d.required = true → d.readOnly = false ∧ d.serverComputed = false := by
  obtain ⟨m, registry, h⟩ := Sample.resource_ok
  refine ⟨m, registry, h, fun fields hfields d hd => ?_⟩
  exact ((flags_consistent h fields hfields).1 d hd).2.2

end Builder

end ApiModels
