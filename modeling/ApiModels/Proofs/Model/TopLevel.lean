/-
ApiModels.Proofs.Model.TopLevel — the fields of a resource, name by name.

The steps that lead to a draft add fields for names that are missing
(`Gains`) and demand those for the parameters of the creation path
(`find?_demandPathParams`). No step leaves two fields of one name, so a
name has one field in the model, and what that one says is what was merged
under its name, forced and settled (`Drafting.found`).
-/
import ApiModels.Proofs.Field.Order
import ApiModels.Proofs.Model.Standard

namespace ApiModels

namespace Field

/-! ## Fields for names that are missing -/

/-- Those of some new fields whose names were missing are there, behind the ones that were. -/
structure Gains (fields new fields' : List Field) : Prop where
  found : ∀ s, find? fields' (.text s) = (find? fields (.text s)).or (find? new (.text s))
  distinct : DistinctTexts fields → DistinctTexts fields'
  allTexts : AllTexts fields' → AllTexts fields ∧ AllTexts new

namespace Gains

variable {fields new new' fields' fields'' : List Field}

theorem nothing (fields : List Field) : Gains fields [] fields :=
  ⟨fun s => by cases find? fields (.text s) <;> rfl, id, fun h => ⟨h, nofun⟩⟩

theorem trans (h : Gains fields new fields') (h' : Gains fields' new' fields'') :
    Gains fields (new ++ new') fields'' where
  found := fun s => by rw [h'.found, h.found, find?_append_text, Option.or_assoc]
  distinct := fun hd => h'.distinct (h.distinct hd)
  allTexts := by
    intro htexts
    obtain ⟨htexts', hnew'⟩ := h'.allTexts htexts
    obtain ⟨hfields, hnew⟩ := h.allTexts htexts'
    exact ⟨hfields, List.forall_mem_append.2 ⟨hnew, hnew'⟩⟩

/-- A field is added unless one of its name is there. -/
theorem one (fields : List Field) (f : Field) :
    Gains fields [f] (if f.name.isAmong (names fields) then fields else fields ++ [f]) := by
  split
  · rename_i hamong
    refine ⟨fun s => ?_, id, fun h => ⟨h, ?_⟩⟩
    · -- If the new field has this name, one that was there has it too.
      rw [find?_cons_text]
      split
      · rename_i hname
        rw [hname, Scalar.isAmong_iff_of_isText rfl] at hamong
        obtain ⟨g, hg, hgname⟩ := List.mem_map.1 hamong
        have hsome := find?_isSome_iff.2 (mem_texts.2 ⟨g, hg, hgname⟩)
        obtain ⟨k, hk⟩ := Option.isSome_iff_exists.1 hsome
        rw [hk, Option.some_or]
      · exact (Option.or_none).symm
    · obtain ⟨name, hname, hsame⟩ := List.any_eq_true.1 hamong
      obtain ⟨g, hg, rfl⟩ := List.mem_map.1 hname
      intro k hk
      rw [List.mem_singleton.1 hk, ← isText_eq_of_same hsame]
      exact h g hg
  · rename_i hamong
    refine ⟨fun s => find?_append_text fields [f] s, fun hd => hd.concat fun s hs hmem => ?_, ?_⟩
    · obtain ⟨g, hg, hgname⟩ := mem_texts.1 hmem
      rw [hs, Scalar.isAmong_iff_of_isText rfl] at hamong
      exact hamong (hgname ▸ List.mem_map_of_mem hg)
    · exact List.forall_mem_append.1

theorem mem_texts (h : Gains fields new fields') {s : String} :
    s ∈ texts fields' ↔ s ∈ texts fields ∨ s ∈ texts new := by
  rw [← find?_isSome_iff, ← find?_isSome_iff, ← find?_isSome_iff, h.found, Option.isSome_or,
    Bool.or_eq_true]

end Gains

end Field

namespace Builder

open ApiModels.Field (DistinctTexts AllTexts Gains find? texts names role settleInfo forcedInfo)

/-! ## Parameters and ends of links -/

/-- Each name gets the field that is made for it, if it has none. -/
theorem addEach_spec {P : Field → Prop} {makes : List (Value × (Scalar → Field))} :
    ∀ {fields fields' : List Field},
      (∀ m ∈ makes, ∀ name, (m.2 name).name = name ∧ P (m.2 name)) →
      addEach makes fields = .ok fields' →
      ∃ new, Value.keys (makes.map Prod.fst) = .ok (names new) ∧ Gains fields new fields' ∧
        ∀ f ∈ new, P f := by
  induction makes with
  | nil =>
    intro fields fields' _ h
    cases h
    exact ⟨[], rfl, .nothing fields, nofun⟩
  | cons m rest ih =>
    obtain ⟨name, make⟩ := m
    intro fields fields' hmakes h
    obtain ⟨hmake, hrest⟩ := List.forall_mem_cons.1 hmakes
    rw [addEach, Result.bind_eq_ok] at h
    obtain ⟨added, hadded, h⟩ := h
    obtain ⟨key, hkey, rfl⟩ := addField_eq_ok hadded
    obtain ⟨hname, hP⟩ := hmake key
    have hfirst := Gains.one fields (make key)
    rw [hname] at hfirst
    obtain ⟨new, hkeys, hgains, hnew⟩ := ih hrest h
    refine ⟨make key :: new, ?_, hfirst.trans hgains, List.forall_mem_cons.2 ⟨hP, hnew⟩⟩
    rw [List.map_cons, Value.keys, Result.bind_eq_ok]
    refine ⟨key, hkey, Result.bind_eq_ok.2 ⟨names new, hkeys, ?_⟩⟩
    exact congrArg (fun k => Except.ok (k :: names new)) hname.symm

theorem ofParameter_info (name : Scalar) (typeName description : String) (required : Bool) :
    let f := Field.ofParameter name typeName description required
    f.name = name ∧ f.required = required ∧ f.readOnly = false ∧ f.serverComputed = false := by
  unfold Field.ofParameter
  cases SemanticType.ofName typeName <;> exact ⟨rfl, rfl, rfl, rfl⟩

/-- Parameters whose names are missing become fields that are neither required nor read-only. -/
theorem addParameters_spec {description : String} {params : List ParameterSettings}
    {fields fields' : List Field} (h : addParameters description params fields = .ok fields') :
    ∃ new, Value.keys (params.map fun p => p.name) = .ok (names new) ∧ Gains fields new fields' ∧
      ∀ f ∈ new, f.required = false ∧ f.readOnly = false ∧ f.serverComputed = false := by
  rw [addParameters_eq] at h
  obtain ⟨new, hkeys, hnew⟩ := addEach_spec
    (P := fun f => f.required = false ∧ f.readOnly = false ∧ f.serverComputed = false)
    (List.forall_mem_map.2 fun _ _ _ => ofParameter_info _ _ _ _) h
  rw [List.map_map] at hkeys
  exact ⟨new, hkeys, hnew⟩

/-- Ends whose names are missing become fields that are required. -/
theorem addEndpoints_spec {params : List (Value × String)} {fields fields' : List Field}
    (h : addEndpoints params fields = .ok fields') :
    ∃ new, Value.keys (params.map Prod.fst) = .ok (names new) ∧ Gains fields new fields' ∧
      ∀ f ∈ new, f.required = true ∧ f.readOnly = false ∧ f.serverComputed = false := by
  rw [addEndpoints_eq] at h
  obtain ⟨new, hkeys, hnew⟩ := addEach_spec
    (P := fun f => f.required = true ∧ f.readOnly = false ∧ f.serverComputed = false)
    (List.forall_mem_map.2 fun _ _ _ => ⟨rfl, rfl, rfl, rfl⟩) h
  rw [List.map_map] at hkeys
  exact ⟨new, hkeys, hnew⟩

/-! ## Parameters of the creation path -/

/-- What stands under the name of a path parameter, if this stood there before. -/
def asPathParam (name : Scalar) : Option Field → Field
  | some f => { f with toFieldInfo := pathParamInfo f.toFieldInfo }
  | none => pathParamField name

theorem asPathParam_twice (name : Scalar) (o : Option Field) :
    asPathParam name (some (asPathParam name o)) = asPathParam name o := by
  cases o <;> rfl

theorem distinct_demandPathParam {model : List Field} (hd : DistinctTexts model) (name : Scalar) :
    DistinctTexts (demandPathParam model name) := by
  unfold demandPathParam
  split
  · exact hd.put _
  · rename_i hnone
    refine hd.concat fun s hs hmem => ?_
    have hsome := Field.find?_isSome_iff.2 hmem
    rw [← show name = .text s from hs, hnone] at hsome
    cases hsome

theorem distinct_demandPathParams {params : List Scalar} :
    ∀ {model : List Field}, DistinctTexts model →
      DistinctTexts (params.foldl demandPathParam model) := by
  induction params with
  | nil => exact fun hd => hd
  | cons name rest ih => exact fun hd => ih (distinct_demandPathParam hd name)

theorem find?_demandPathParam (model : List Field) (name : Scalar) (s : String) :
    find? (demandPathParam model name) (.text s) =
      if name = .text s then some (asPathParam name (find? model name))
      else find? model (.text s) := by
  unfold demandPathParam
  cases hfound : find? model name with
  | none =>
    rw [Field.find?_append_text]
    by_cases hname : name = .text s
    · rw [if_pos hname, ← hname, hfound, Option.none_or, hname, Field.find?_cons_text]
      exact if_pos rfl
    · rw [if_neg hname, Field.find?_cons_text]
      exact (congrArg _ (if_neg hname)).trans Option.or_none
  | some f =>
    have hsame : f.name = .text s ↔ name = .text s := by
      have hsame := Field.find?_same hfound
      constructor
      · intro hf
        rwa [hf, Scalar.text_same_iff] at hsame
      · intro hname
        rwa [hname, Scalar.same_text_iff] at hsame
    rw [Field.find?_put]
    by_cases hname : name = .text s
    · rw [if_pos hname]
      exact if_pos (hsame.2 hname)
    · rw [if_neg hname]
      exact if_neg fun hf => hname (hsame.1 hf)

/-- Under the names of path parameters stand fields for them, under others what stood there. -/
theorem find?_demandPathParams {params : List Scalar} {s : String} :
    ∀ {model : List Field}, find? (params.foldl demandPathParam model) (.text s) =
      if .text s ∈ params then some (asPathParam (.text s) (find? model (.text s)))
      else find? model (.text s) := by
  induction params with
  | nil => exact fun {_} => rfl
  | cons name rest ih =>
    intro model
    rw [List.foldl_cons, ih, find?_demandPathParam]
    by_cases hname : name = .text s
    · subst hname
      rw [if_pos rfl, if_pos List.mem_cons_self]
      split
      · rw [asPathParam_twice]
      · rfl
    · have hmem : .text s ∈ name :: rest ↔ .text s ∈ rest := by
        rw [List.mem_cons, or_iff_right (Ne.symm hname)]
      simp only [if_neg hname, hmem]

theorem mem_texts_demandPathParams {params : List Scalar} {model : List Field} {s : String} :
    s ∈ texts (params.foldl demandPathParam model) ↔ s ∈ texts model ∨ .text s ∈ params := by
  rw [← Field.find?_isSome_iff, find?_demandPathParams, ← Field.find?_isSome_iff]
  split
  · rename_i hmem
    simp [hmem]
  · rename_i hmem
    simp [hmem]

theorem allTexts_demandPathParams {params : List Scalar} :
    ∀ {model : List Field}, AllTexts (params.foldl demandPathParam model) → AllTexts model := by
  induction params with
  | nil => exact fun h => h
  | cons name rest ih =>
    intro model h
    have hstep := ih h
    unfold demandPathParam at hstep
    split at hstep
    · exact ((Field.allTexts_put _ _).1 hstep).1
    · exact (List.forall_mem_append.1 hstep).1

/-- Where all names are texts once path parameters are demanded, these are texts. -/
theorem isText_of_demandPathParams {params : List Scalar} :
    ∀ {model : List Field}, AllTexts (params.foldl demandPathParam model) →
      ∀ name ∈ params, name.isText = true := by
  induction params with
  | nil => exact fun _ => nofun
  | cons name rest ih =>
    intro model h
    refine List.forall_mem_cons.2 ⟨?_, ih h⟩
    have hstep : AllTexts (demandPathParam model name) := allTexts_demandPathParams h
    unfold demandPathParam at hstep
    split at hstep
    · rename_i f hf
      rw [← Field.isText_eq_of_same (Field.find?_same hf)]
      exact ((Field.allTexts_put _ _).1 hstep).2
    · exact hstep (pathParamField name) (List.mem_append_right _ List.mem_cons_self)

theorem gains_acceptPathParams {params : List Scalar} :
    ∀ create : List Field,
      Gains create (params.map pathParamField) (params.foldl acceptPathParam create) := by
  induction params with
  | nil => exact .nothing
  | cons name rest ih =>
    intro create
    exact (Gains.one create (pathParamField name)).trans (ih _)

theorem mem_texts_pathParams {params : List Scalar} {s : String} :
    s ∈ texts (params.map pathParamField) ↔ .text s ∈ params := by
  rw [Field.mem_texts]
  constructor
  · rintro ⟨f, hf, hname⟩
    obtain ⟨name, hmem, rfl⟩ := List.mem_map.1 hf
    exact (show name = .text s from hname) ▸ hmem
  · exact fun h => ⟨_, List.mem_map_of_mem h, rfl⟩

/-! ## What stands under a name -/

namespace Drafting

variable {b : Builder} {r : ResourceSettings} {d : Draft}

/-- Creation accepts a name that its fields have, and the parameters of its path. -/
theorem accepted_isSome_iff (s : Drafting b r d) {t : String} :
    (Field.findLast? s.accepted (.text t)).isSome = true ↔
      t ∈ texts s.create ∨ .text t ∈ s.pathParams := by
  rw [Field.findLast?, Field.find?_isSome_iff,
    Field.mem_texts_perm (List.reverse_perm s.accepted), accepted,
    (gains_acceptPathParams s.create).mem_texts, mem_texts_pathParams]

theorem distinct_merged (s : Drafting b r d) : DistinctTexts s.merged := by
  have hmerged := s.merged_eq
  cases hplugin : d.plugin with
  | order =>
    rw [hplugin] at hmerged
    obtain ⟨new, -, hgains, -⟩ := addParameters_spec hmerged
    exact hgains.distinct (Field.distinct_mergeOrder _ _)
  | standard | link =>
    rw [hplugin] at hmerged
    exact Except.ok.inj hmerged ▸ Field.distinct_merge _ _

theorem distinct_demanded (s : Drafting b r d) : DistinctTexts s.demanded :=
  distinct_demandPathParams s.distinct_merged

/--
A field of the model has a text as its name, and so has a returned one. It says what was merged
under this name, or demanded by the creation path, forced and settled.
-/
theorem found (s : Drafting b r d) (hs : s.LeadsTo) {registry registry' : NameRegistry}
    {m : ResourceModel} (h : ComesOf d.modelFields d.responseFields registry registry' m)
    {fields : List Field} (hfields : fields ∈ [m.modelFields, m.responseFields]) {f : Field}
    (hf : f ∈ fields) :
    ∃ t w, f.name = .text t ∧ find? s.demanded (.text t) = some w ∧
      role f.toFieldInfo = role (settleInfo (Field.findLast? s.accepted (.text t)).isSome
        (forcedInfo s.updatable [] w.toFieldInfo)) := by
  obtain ⟨htext, settled, hsub, heq⟩ := s.roles hs h hfields
  obtain ⟨t, ht⟩ := Scalar.isText_iff.1 (htext f hf).1
  obtain ⟨g, hg, hgf⟩ := Field.exists_restate_eq heq hf
  obtain ⟨w, hw, hname, hrole⟩ := s.occursAt_settled (.here (hsub hg))
  have hgname : g.name = .text t := (Field.keeps_role.name_eq hgf).trans ht
  refine ⟨t, w, ht, ?_, ?_⟩
  · exact (Field.find?_text_iff s.distinct_demanded).2
      ⟨Field.occursAt_nil_iff.1 hw, hname.trans hgname⟩
  · rw [← Field.info_restate_eq hgf, hrole, hgname]
    rfl

/-- Where a model is built, all names that were demanded are texts. -/
theorem allTexts_demanded (s : Drafting b r d) (hs : s.LeadsTo)
    {registry registry' : NameRegistry} {m : ResourceModel}
    (h : ComesOf d.modelFields d.responseFields registry registry' m) : AllTexts s.demanded := by
  obtain ⟨htext, -⟩ := s.roles hs h List.mem_cons_self
  intro f hf
  have hnamed := (s.names_modelFields hs h).mem_iff.2 (List.mem_map_of_mem hf)
  obtain ⟨g, hg, hname⟩ := List.mem_map.1 hnamed
  exact hname ▸ (htext g hg).1

/-- A model has no name twice. -/
theorem distinct_modelFields (s : Drafting b r d) (hs : s.LeadsTo)
    {registry registry' : NameRegistry} {m : ResourceModel}
    (h : ComesOf d.modelFields d.responseFields registry registry' m) :
    DistinctTexts m.modelFields :=
  s.distinct_demanded.of_names_perm (s.names_modelFields hs h).symm

/-- A name under which something stands once all is demanded has one field in the model. -/
theorem one_modelField (s : Drafting b r d) (hs : s.LeadsTo)
    {registry registry' : NameRegistry} {m : ResourceModel}
    (h : ComesOf d.modelFields d.responseFields registry registry' m) {t : String} {w : Field}
    (hw : find? s.demanded (.text t) = some w) :
    ∃ f ∈ m.modelFields, f.name = .text t ∧
      (m.modelFields.filter fun g => g.name.same (.text t)) = [f] := by
  obtain ⟨hmem, hname⟩ := Field.find?_text_some hw
  have hnamed : .text t ∈ names m.modelFields :=
    (s.names_modelFields hs h).mem_iff.2 (hname ▸ List.mem_map_of_mem hmem)
  obtain ⟨f, hf, hfname⟩ := List.mem_map.1 hnamed
  have hd := s.distinct_modelFields hs h
  exact ⟨f, hf, hfname, Field.filter_same_text hd ((Field.find?_text_iff hd).2 ⟨hf, hfname⟩)⟩

end Drafting

end Builder

end ApiModels
