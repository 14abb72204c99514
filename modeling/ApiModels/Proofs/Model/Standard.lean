/-
ApiModels.Proofs.Model.Standard — the flags of a standard resource.

A standard resource has three schemas: what creation accepts, what an
update accepts, and what is returned. Without overrides in the
configuration no more than these decide its flags, at every place, and
`StandardFlags` says how. That every field has these flags is put together
from what a merge says of a place (`occursAt_merge`) and from what settling
makes of it (`Drafting.occursAt_settled`).
-/
import ApiModels.Proofs.Field.Origin
import ApiModels.Proofs.Model.Flags

namespace ApiModels

namespace Field

/-- What the field at a place says, if there is one; that it does not say so if there is none. -/
def flagAt (flag : FieldInfo → Bool) (fields : List Field) (steps : List Step) (name : Scalar) :
    Bool :=
  match at? fields steps name with
  | some f => flag f.toFieldInfo
  | none => false

/-- The flags that a field at the end of some steps has from what is accepted and returned there. -/
structure StandardFlags (create response : List Field) (updatable : List Scalar)
    (steps : List Step) (f : Field) : Prop where
  readOnly : f.readOnly =
    (flagAt FieldInfo.readOnly create steps f.name ||
      flagAt FieldInfo.readOnly response steps f.name)
  serverComputed : f.serverComputed = (f.readOnly || (at? create steps f.name).isNone)
  required : f.required = (flagAt FieldInfo.required create steps f.name && !f.serverComputed)
  useStateForUnknown : f.useStateForUnknown = f.serverComputed
  forceNew : f.forceNew = true ↔ steps = [] ∧ f.readOnly = false ∧ f.name ∉ updatable

/-- What is said of a place by fields of which only their schemas say something, merged. -/
structure MergedFlags (create response : List Field) (steps : List Step) (name : Scalar)
    (f : FieldInfo) : Prop where
  readOnly : f.readOnly =
    (flagAt FieldInfo.readOnly create steps name || flagAt FieldInfo.readOnly response steps name)
  required : (at? create steps name).isSome = true →
    f.required = flagAt FieldInfo.required create steps name
  serverComputed : f.serverComputed = false
  forceNew : f.forceNew = false
  useStateForUnknown : f.useStateForUnknown = false

/-- The flags of a merged field, forced and settled, are those of a standard resource. -/
theorem MergedFlags.settled {create response : List Field} {updatable : List Scalar}
    {steps : List Step} {f : Field} {w : FieldInfo} (hname : w.name = f.name)
    (htext : f.name.isText = true) (h : MergedFlags create response steps f.name w)
    (heq : role f.toFieldInfo =
      role (settleInfo (at? create steps f.name).isSome (forcedInfo updatable steps w))) :
    StandardFlags create response updatable steps f := by
  obtain ⟨hread, hcomputed, hrequired, hstate, hforce⟩ := flags_of_role_eq heq
  simp only [settleInfo, forcedInfo, h.serverComputed, h.useStateForUnknown, h.forceNew,
    Bool.false_or] at hread hcomputed hrequired hstate hforce
  have hcomputed' : f.serverComputed = (f.readOnly || (at? create steps f.name).isNone) := by
    rw [hcomputed, hread, Option.not_isSome]
  refine ⟨hread.trans h.readOnly, hcomputed', ?_, hstate.trans hcomputed.symm, ?_⟩
  · rw [hrequired, ← hcomputed]
    cases hcreated : at? create steps f.name with
    | none =>
      rw [hcreated, Option.isNone_none, Bool.or_true] at hcomputed'
      rw [hcomputed', Bool.not_true, Bool.and_false, Bool.and_false]
    | some c => rw [h.required (by rw [hcreated]; rfl)]
  · rw [hforce, hname, ← hread, ← Scalar.isAmong_iff_of_isText htext]
    simp

end Field

namespace Builder

open ApiModels.Field (Everywhere OccursAt TextPlace DistinctThroughout StandardFlags Untouched role)

variable {b : Builder} {r : ResourceSettings}

/-! ## What is extracted for a side -/

theorem extract_sides (hoverrides : b.extractor.policy.overrides = []) {node : Value}
    {fields : List Field} (h : b.extractor.extract node = .ok fields) :
    DistinctThroughout fields ∧ ∀ f ∈ fields, Everywhere Untouched f :=
  ⟨Extractor.extract_distinct h, Extractor.extract_untouched hoverrides h⟩

theorem requestFields_sides (hoverrides : b.extractor.policy.overrides = []) {id : Value}
    {fields : List Field} (h : b.requestFields id = .ok fields) :
    DistinctThroughout fields ∧ ∀ f ∈ fields, Everywhere Untouched f := by
  obtain rfl | ⟨node, -, hextracted⟩ := requestFields_eq_ok h
  · exact ⟨⟨List.nodup_nil, nofun⟩, nofun⟩
  · exact extract_sides hoverrides hextracted

/-! ## Standard resources -/

namespace Drafting

variable {d : Draft}

/-- What the steps of a standard resource give. -/
theorem standard (s : Drafting b r d) (hplugin : d.plugin = .standard) :
    b.requestFields r.createId = .ok s.create ∧
      b.requestFields (ResourceSettings.derivedId r.baseOperationId "partial_update") =
        .ok s.update ∧
      (∃ schema,
        b.document.responseSchema (ResourceSettings.derivedId r.baseOperationId "retrieve") =
          .ok schema ∧ b.extractor.extract schema = .ok s.response) ∧
      s.merged = Field.merge s.create s.response := by
  have hcreate := s.create_eq
  have hupdate := s.update_eq
  have hresponse := s.response_eq
  have hmerged := s.merged_eq
  rw [hplugin] at hcreate hupdate hresponse hmerged
  exact ⟨requestFields_of_standard hcreate, hupdate, Result.bind_eq_ok.1 hresponse,
    (Except.ok.inj hmerged).symm⟩

theorem pathParams_eq_nil (s : Drafting b r d)
    (hparams : ∀ c, r.createOperation = some c → c.pathParams = []) : s.pathParams = [] := by
  have heq := s.pathParams_eq
  unfold pathParamNames at heq
  cases hc : r.createOperation with
  | none =>
    rw [hc] at heq
    exact (Except.ok.inj heq).symm
  | some c =>
    simp only [hc, hparams c hc] at heq
    exact (Except.ok.inj heq).symm

theorem updatable_spec (s : Drafting b r d) :
    ∃ params, Value.keys ((d.updateActions.map fun a => a.param).filter Value.given) = .ok params ∧
      s.updatable = Field.names s.update ++ params := by
  have heq := s.updatable_eq
  rw [updatableNames, Result.bind_eq_ok] at heq
  obtain ⟨params, hparams, hsame⟩ := heq
  exact ⟨params, hparams, (Except.ok.inj hsame).symm⟩

/-- Settling and sorting leave the fields their names. -/
theorem names_modelFields (s : Drafting b r d) (hs : s.LeadsTo) {registry registry' : NameRegistry}
    {m : ResourceModel} (h : ComesOf d.modelFields d.responseFields registry registry' m) :
    (Field.names m.modelFields).Perm (Field.names s.demanded) := by
  obtain ⟨-, heq⟩ := s.roles_of_marked (List.Subset.refl _) hs.modelFields h.nameable.1
    h.role_modelFields
  rw [Field.names_restate_eq Field.keeps_role heq,
    ← Field.names_restate_eq Field.keeps_outline s.outline_settled]
  exact (Field.sortByName_perm _).map _

end Drafting

end Builder

end ApiModels
