/-
ApiModels.Proofs.Model.Link — the ends of a link.

Among the returned fields those for the ends of a link are marked as
required and as forcing a new link. The merge, though, takes what is
required from the fields of the creation side, and there an end gets a
field of its own only where the body of the link operation has none. So an
end that the body declares is only as required and as writable as the body
says, unless the creation path demands it (`settable_end_iff`).
-/
import ApiModels.Proofs.Model.TopLevel

namespace ApiModels

namespace Field

/-- A field that must be given, and a change of which makes a new resource. -/
structure Settable (f : FieldInfo) : Prop where
  required : f.required = true
  writable : f.readOnly = false
  notComputed : f.serverComputed = false
  forceNew : f.forceNew = true

theorem Settable.of_role_eq {f g : FieldInfo} (heq : role f = role g) (h : Settable f) :
    Settable g := by
  obtain ⟨hread, hcomputed, hrequired, -, hforce⟩ := flags_of_role_eq heq
  exact ⟨hrequired ▸ h.required, hread ▸ h.writable, hcomputed ▸ h.notComputed,
    hforce ▸ h.forceNew⟩

theorem settable_congr {f g : FieldInfo} (heq : role f = role g) : Settable f ↔ Settable g :=
  ⟨.of_role_eq heq, .of_role_eq heq.symm⟩

/-- An accepted field that no update accepts is settled as required if it is so and writable. -/
theorem settable_settled {f : FieldInfo} (hcomputed : f.serverComputed = false) :
    Settable (settleInfo true (forcedInfo [] [] f)) ↔ f.required = true ∧ f.readOnly = false := by
  constructor
  · rintro ⟨hrequired, hwritable, -, -⟩
    simp only [settleInfo, forcedInfo, Bool.and_eq_true] at hrequired hwritable
    exact ⟨hrequired.1, hwritable⟩
  · rintro ⟨hrequired, hwritable⟩
    constructor <;> simp [settleInfo, forcedInfo, hcomputed, hrequired, hwritable, Scalar.isAmong]

end Field

namespace Builder

open ApiModels.Field (DistinctTexts Gains Settable Untouched Everywhere find? texts names role
  settleInfo forcedInfo)

variable {b : Builder} {r : ResourceSettings}

/-! ## The sides of a link -/

theorem names_markEndpoints (ends : List Scalar) (fields : List Field) :
    names (markEndpoints ends fields) = names fields := by
  unfold markEndpoints names
  rw [List.map_map]
  refine List.map_congr_left fun f _ => ?_
  dsimp only [Function.comp_apply]
  split <;> rfl

/-- What is returned for an end of a link is marked: it is required and writable. -/
theorem marked_of_find? {ends : List Scalar} {fields : List Field} {s : String} {o : Field}
    (hmem : .text s ∈ ends) (h : find? (markEndpoints ends fields) (.text s) = some o) :
    ∃ f ∈ fields, o = { f with required := true, readOnly := false, forceNew := true } := by
  obtain ⟨ho, hname⟩ := Field.find?_text_some h
  obtain ⟨f, hf, rfl⟩ := List.mem_map.1 ho
  have hfname : f.name = .text s := by
    split at hname <;> exact hname
  refine ⟨f, hf, if_pos ?_⟩
  rw [hfname, Scalar.isAmong_iff_of_isText rfl]
  exact hmem

namespace Drafting

variable {d : Draft} (s : Drafting b r d)

/-- What the steps of a link give. -/
theorem link (hplugin : d.plugin = .link) :
    (∃ body ends params, b.requestFields r.linkOp = .ok body ∧
      Value.keys ((endpointParams r).map Prod.fst) = .ok (names ends) ∧
      (∀ f ∈ ends, f.required = true ∧ f.readOnly = false ∧ f.serverComputed = false) ∧
      Gains body (ends ++ params) s.create) ∧
    s.update = [] ∧ b.responseFields r .link = .ok s.response ∧
    s.merged = Field.merge s.create s.response := by
  have hcreate := s.create_eq
  have hupdate := s.update_eq
  have hresponse := s.response_eq
  have hmerged := s.merged_eq
  rw [hplugin] at hcreate hupdate hresponse hmerged
  simp only [createFields, Result.bind_eq_ok] at hcreate
  obtain ⟨body, hbody, withEnds, hends, hcreate⟩ := hcreate
  obtain ⟨ends, hkeys, hgains, hmade⟩ := addEndpoints_spec hends
  obtain ⟨params, -, hgains', -⟩ := addParameters_spec hcreate
  exact ⟨⟨body, ends, params, hbody, hkeys, hmade, hgains.trans hgains'⟩,
    (Except.ok.inj hupdate).symm, hresponse, (Except.ok.inj hmerged).symm⟩

theorem updatable_eq_nil (hupdate : s.update = [])
    (hactions : r.updateActions = []) : s.updatable = [] := by
  have hresolved := s.actions_eq
  rw [Builder.updateActions, hactions] at hresolved
  obtain ⟨params, hparams, hupdatable⟩ := s.updatable_spec
  rw [← show [] = d.updateActions from Except.ok.inj hresolved] at hparams
  rw [hupdatable, hupdate, ← Except.ok.inj hparams]
  rfl

/-- The returned fields of a link have no name twice, and those for its ends are not read-only. -/
theorem response_of_link (hresponse : b.responseFields r .link = .ok s.response)
    (hoverrides : b.extractor.policy.overrides = []) {ends : List Scalar}
    (hends : Value.keys ((endpointParams r).map Prod.fst) = .ok ends) :
    DistinctTexts s.response ∧ ∀ t o, .text t ∈ ends → find? s.response (.text t) = some o →
      o.readOnly = false ∧ o.serverComputed = false := by
  rcases responseFields_of_link hresponse with
    hempty | ⟨node, fields, keys, -, hfields, hkeys, hmarked⟩
  · rw [hempty]
    refine ⟨List.nodup_nil, fun t o _ ho => ?_⟩
    cases ho
  · cases hends.symm.trans hkeys
    obtain ⟨⟨hdistinct, -⟩, huntouched⟩ := extract_sides hoverrides hfields
    rw [hmarked]
    refine ⟨hdistinct.of_names_perm (by rw [names_markEndpoints]), fun t o ht ho => ?_⟩
    obtain ⟨f, hf, rfl⟩ := marked_of_find? ht ho
    exact ⟨rfl, (huntouched f hf).here.serverComputed⟩

/-- What creation accepts for an end of a link is the body's field, or else one of its own. -/
theorem create_of_link {body ends params : List Field}
    (hgains : Gains body (ends ++ params) s.create)
    (hends : ∀ f ∈ ends, f.required = true ∧ f.readOnly = false ∧ f.serverComputed = false)
    {t : String} (ht : .text t ∈ names ends) :
    (∃ c, find? body (.text t) = some c ∧ find? s.create (.text t) = some c) ∨
      find? body (.text t) = none ∧ ∃ c, find? s.create (.text t) = some c ∧
        c.required = true ∧ c.readOnly = false ∧ c.serverComputed = false := by
  have hfound := hgains.found t
  cases hbody : find? body (.text t) with
  | some c =>
    rw [hbody, Option.some_or] at hfound
    exact .inl ⟨c, rfl, hfound⟩
  | none =>
    obtain ⟨f, hf, hname⟩ := List.mem_map.1 ht
    have hsome := Field.find?_isSome_iff.2 (Field.mem_texts.2 ⟨f, hf, hname⟩)
    obtain ⟨c, hc⟩ := Option.isSome_iff_exists.1 hsome
    rw [hbody, Option.none_or, Field.find?_append_text, hc, Option.some_or] at hfound
    exact .inr ⟨rfl, c, hfound, hends c (Field.find?_text_some hc).1⟩

/-- Under the name of an end the sides are merged to what creation accepts there. -/
theorem merged_of_link (hplugin : d.plugin = .link) (hoverrides : b.extractor.policy.overrides = [])
    {body ends params : List Field} (hbody : b.requestFields r.linkOp = .ok body)
    (hkeys : Value.keys ((endpointParams r).map Prod.fst) = .ok (names ends))
    (hends : ∀ f ∈ ends, f.required = true ∧ f.readOnly = false ∧ f.serverComputed = false)
    (hgains : Gains body (ends ++ params) s.create) {t : String} (ht : .text t ∈ names ends) :
    ∃ w, find? s.merged (.text t) = some w ∧ t ∈ texts s.create ∧ w.serverComputed = false ∧
      (w.required = true ∧ w.readOnly = false ↔
        ∀ c, find? body (.text t) = some c → c.required = true ∧ c.readOnly = false) := by
  obtain ⟨-, -, hresponse, hmerged⟩ := s.link hplugin
  obtain ⟨⟨hdistinct, -⟩, huntouched⟩ := requestFields_sides hoverrides hbody
  obtain ⟨hdistinct', hmarked⟩ := s.response_of_link hresponse hoverrides hkeys
  -- What creation accepts there is not the server's, and says what the body does.
  obtain ⟨c, hc, hcomputed, hparam, hsaid⟩ : ∃ c, find? s.create (.text t) = some c ∧
      c.serverComputed = false ∧ (c.isPathParam = false ∨ c.readOnly = false) ∧
      (c.required = true ∧ c.readOnly = false ↔
        ∀ c', find? body (.text t) = some c' → c'.required = true ∧ c'.readOnly = false) := by
    rcases s.create_of_link hgains hends ht with ⟨c, hbody, hc⟩ | ⟨hbody, c, hc, hend⟩
    · have hc' := (huntouched c (Field.find?_text_some hbody).1).here
      refine ⟨c, hc, hc'.serverComputed, .inl hc'.noPathParam, ?_⟩
      rw [hbody]
      simp only [Option.some.injEq, forall_eq']
    · refine ⟨c, hc, hend.2.2, .inr hend.2.1, ?_⟩
      rw [hbody]
      simp [hend]
  have hmem : t ∈ texts s.create := Field.find?_isSome_iff.1 (by rw [hc]; rfl)
  have hfound := Field.find?_merge (hgains.distinct hdistinct) hdistinct' t
  rw [← hmerged, hc] at hfound
  cases ho : find? s.response (.text t) with
  | none =>
    rw [ho] at hfound
    exact ⟨c, hfound, hmem, hcomputed, hsaid⟩
  | some o =>
    rw [ho] at hfound
    obtain ⟨hread, hserver⟩ := hmarked t o ht ho
    refine ⟨Field.join c o, hfound, hmem, ?_, ?_⟩
    · simp [Field.join_eq, Field.joinInfo, hcomputed, hserver]
    · have hsame : (Field.join c o).readOnly = c.readOnly := by
        rcases hparam with h | h <;> simp [Field.join_eq, Field.joinInfo, hread, h]
      have hrequired : (Field.join c o).required = c.required := by
        rw [Field.join_eq]
        rfl
      rw [hsame, hrequired]
      exact hsaid

/-- The creation path may demand a field that was merged, and then it is required and writable. -/
theorem demanded_of_merged {t : String} {w : Field} (hw : find? s.merged (.text t) = some w)
    (hcomputed : w.serverComputed = false) :
    ∃ v, find? s.demanded (.text t) = some v ∧ v.serverComputed = false ∧
      (v.required = true ∧ v.readOnly = false ↔
        .text t ∈ s.pathParams ∨ w.required = true ∧ w.readOnly = false) := by
  have hfound : find? s.demanded (.text t) = _ := find?_demandPathParams
  rw [hw] at hfound
  split at hfound
  · rename_i hparam
    exact ⟨_, hfound, hcomputed, iff_of_true ⟨rfl, rfl⟩ (.inl hparam)⟩
  · rename_i hparam
    exact ⟨w, hfound, hcomputed, (or_iff_right hparam).symm⟩

end Drafting

/-! ## The ends of a link -/

/--
The field of an end of a link, which the model has once, is required, writable, not the server's
and forces a new link exactly if the creation path demands it or the body, where it declares the
end, does so as required and writable. So is the returned field for it.
-/
theorem settable_end_iff (hplugin : Plugin.ofValue r.plugin = .ok .link)
    (hoverrides : b.extractor.policy.overrides = []) (hactions : r.updateActions = [])
    {registry registry' : NameRegistry} {m : ResourceModel}
    (h : b.resource r registry = (.ok m, registry')) :
    ∃ body pathParams, b.requestFields r.linkOp = .ok body ∧ pathParamNames r = .ok pathParams ∧
      ∀ p ∈ endpointParams r, ∃ name f, p.1.key = .ok name ∧
        (m.modelFields.filter fun g => g.name.same name) = [f] ∧
        (Settable f.toFieldInfo ↔ name ∈ pathParams ∨
          ∀ c, find? body name = some c → c.required = true ∧ c.readOnly = false) ∧
        ∀ g ∈ m.responseFields, g.name.same name = true →
          (Settable g.toFieldInfo ↔ Settable f.toFieldInfo) := by
  obtain ⟨d, hdraft, hcomes, -, -⟩ := resource_spec h
  obtain ⟨s, hs⟩ := draft_spec hdraft
  have hlink := s.plugin_eq_of_ofValue hplugin
  obtain ⟨⟨body, ends, params, hbody, hkeys, hends, hgains⟩, hupdate, -, hmerged⟩ := s.link hlink
  have hupdatable := s.updatable_eq_nil hupdate hactions
  have hall := allTexts_demandPathParams (s.allTexts_demanded hs hcomes)
  rw [hmerged, Field.allTexts_merge] at hall
  refine ⟨body, s.pathParams, hbody, s.pathParams_eq, fun p hp => ?_⟩
  obtain ⟨name, hmem, hkey⟩ := exists_key_of_mem hkeys p.1 (List.mem_map_of_mem hp)
  obtain ⟨e, he, hename⟩ := List.mem_map.1 hmem
  obtain ⟨t, rfl⟩ := Scalar.isText_iff.1
    (hename ▸ (hgains.allTexts hall.1).2 e (List.mem_append_left _ he))
  obtain ⟨w, hw, hcreated, hcomputed, hsaid⟩ :=
    s.merged_of_link hlink hoverrides hbody hkeys hends hgains hmem
  obtain ⟨v, hv, hvcomputed, hvsaid⟩ := s.demanded_of_merged hw hcomputed
  rw [hsaid] at hvsaid
  have haccepted : (Field.findLast? s.accepted (.text t)).isSome = true :=
    s.accepted_isSome_iff.2 (.inl hcreated)
  -- Whatever field of this name stands in the model, or is returned, says what was demanded.
  have hrole : ∀ fields ∈ [m.modelFields, m.responseFields], ∀ f ∈ fields, f.name = .text t →
      (Settable f.toFieldInfo ↔ .text t ∈ s.pathParams ∨
        ∀ c, find? body (.text t) = some c → c.required = true ∧ c.readOnly = false) := by
    intro fields hfields f hf hname
    obtain ⟨t', v', ht', hv', heq⟩ := s.found hs hcomes hfields hf
    cases hname.symm.trans ht'
    cases hv.symm.trans hv'
    rw [haccepted, hupdatable] at heq
    rw [Field.settable_congr heq, Field.settable_settled hvcomputed, hvsaid]
  obtain ⟨f, hf, hname, hone⟩ := s.one_modelField hs hcomes hv
  refine ⟨.text t, f, hkey, hone, hrole _ (.head _) f hf hname, fun g hg hgname => ?_⟩
  rw [hrole _ (.head _) f hf hname]
  exact hrole _ (.tail _ (.head _)) g hg (Scalar.same_text_iff.1 hgname)

/-! ## A small link

A user is added to a project by an operation whose body declares the user without requiring it, and
the permission that this makes is returned with its user.
-/

namespace Sample

def userNode : Value := .record [("properties", .record [("user", textNode)])]

def permissionDocument : Document where
  root := []
  operations :=
    [⟨.text "project_add_user", .text "/projects/1/add_user/", "POST",
       [(.text "requestBody", json userNode)], []⟩,
     ⟨.text "permission_retrieve", .text "/permissions/1/", "GET",
       [(.text "responses", .record [("200", json userNode)])], []⟩]

def permissionSettings : ResourceSettings :=
  { settings with
    name := .text "permission"
    baseOperationId := .text "permission"
    plugin := .text "link"
    linkOp := .text "project_add_user"
    unlinkOp := .text "project_delete_user"
    source := some ⟨.text "project", .null⟩
    target := some ⟨.text "user", .null⟩ }

def permissionBuilder : Builder := { builder with extractor := { document := permissionDocument } }

/-- The user, an end that the body declares, is returned and yet need not be given. -/
theorem user_optional :
    ∃ m registry, permissionBuilder.resource permissionSettings {} = (.ok m, registry) ∧
      .text "user" ∈ (endpointParams permissionSettings).map Prod.fst ∧
      permissionBuilder.extractor.policy.overrides = [] ∧ permissionSettings.updateActions = [] ∧
      ∀ fields ∈ [m.modelFields, m.responseFields], ∃ f ∈ fields, f.name = .text "user" ∧
        f.required = false := by
  obtain ⟨m, registry, h, hfields⟩ := exists_of_any
    (x := permissionBuilder.resource permissionSettings {})
    (p := fun m => [m.modelFields, m.responseFields].all fun fields =>
      fields.any fun f => f.name.same (.text "user") && !f.required) (by decide +kernel)
  refine ⟨m, registry, h, .tail _ (.head _), rfl, rfl, fun fields hmem => ?_⟩
  obtain ⟨f, hf, hsaid⟩ := List.any_eq_true.1 (List.all_eq_true.1 hfields fields hmem)
  rw [Bool.and_eq_true, Scalar.same_text_iff, Bool.not_eq_true'] at hsaid
  exact ⟨f, hf, hsaid.1, hsaid.2⟩

end Sample

theorem settable_end_iff_sample :
    ∃ m registry body pathParams,
      Sample.permissionBuilder.resource Sample.permissionSettings {} = (.ok m, registry) ∧
      Sample.permissionBuilder.requestFields Sample.permissionSettings.linkOp = .ok body ∧
      pathParamNames Sample.permissionSettings = .ok pathParams ∧
      ∀ p ∈ endpointParams Sample.permissionSettings, ∃ name f, p.1.key = .ok name ∧
        (m.modelFields.filter fun g => g.name.same name) = [f] ∧
        (Settable f.toFieldInfo ↔ name ∈ pathParams ∨
          ∀ c, find? body name = some c → c.required = true ∧ c.readOnly = false) := by
  obtain ⟨m, registry, h, -⟩ := Sample.exists_of_any
    (x := Sample.permissionBuilder.resource Sample.permissionSettings {}) (p := fun _ => true)
    (by decide +kernel)
  obtain ⟨body, pathParams, hbody, hparams, hends⟩ := settable_end_iff rfl rfl rfl h
  refine ⟨m, registry, body, pathParams, h, hbody, hparams, fun p hp => ?_⟩
  obtain ⟨name, f, hname, hone, hsettable, -⟩ := hends p hp
  exact ⟨name, f, hname, hone, hsettable⟩

end Builder

end ApiModels
