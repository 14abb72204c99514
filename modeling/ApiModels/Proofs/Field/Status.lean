/-
ApiModels.Proofs.Field.Status — what the passes over merged fields leave as
it is.

Describing fields changes their descriptions (`undescribed`), and marking
the excluded ones whether they are skipped (`unskipped`); what is left of a
field by both is `silent`. Settling who fills a field in, and marking the
fields of a data source, change flags, but leave the outline and the
description of every field, and whether it is skipped (`worded`). No pass
adds, removes or moves a field.
-/
import ApiModels.Field.Status
import ApiModels.Proofs.Field.Merge

namespace ApiModels

namespace Field

/-- What a field says apart from its description and whether it is skipped. -/
def silent (f : FieldInfo) : FieldInfo := { f with description := "", schemaSkip := false }

theorem keeps_silent : Keeps silent := ⟨fun _ => rfl, fun _ => rfl, fun _ => rfl, fun _ => rfl⟩

theorem keeps_outline : Keeps outline := ⟨fun _ => rfl, fun _ => rfl, fun _ => rfl, fun _ => rfl⟩

/-- What a field says apart from its description. -/
def undescribed (f : FieldInfo) : FieldInfo := { f with description := "" }

/-- What a field says apart from whether it is skipped. -/
def unskipped (f : FieldInfo) : FieldInfo := { f with schemaSkip := false }

/-- The outline of a field with its description and whether it is skipped. -/
def worded (f : FieldInfo) : FieldInfo :=
  { outline f with description := f.description, schemaSkip := f.schemaSkip }

theorem keeps_worded : Keeps worded := ⟨fun _ => rfl, fun _ => rfl, fun _ => rfl, fun _ => rfl⟩

theorem outline_silent (info : FieldInfo) : outline (silent info) = outline info := rfl

theorem outline_worded (info : FieldInfo) : outline (worded info) = outline info := rfl

theorem silent_undescribed (info : FieldInfo) : silent (undescribed info) = silent info := rfl

theorem silent_unskipped (info : FieldInfo) : silent (unskipped info) = silent info := rfl

theorem outline_unskipped (info : FieldInfo) : outline (unskipped info) = outline info := rfl

/-! ## Descriptions -/

mutual

theorem restate_describe (resource : String) :
    ∀ f : Field, restate undescribed (describe resource f) = restate undescribed f
  | ⟨_, item, properties⟩ =>
    restate_congr rfl (restate_describeItem resource item) (restate_describeAll resource properties)

theorem restate_describeItem (resource : String) :
    ∀ item : Option Field,
      (describeItem resource item).map (restate undescribed) = item.map (restate undescribed)
  | none => rfl
  | some ⟨_, _, properties⟩ =>
    congrArg some (restate_congr rfl rfl (restate_describeAll resource properties))

theorem restate_describeAll (resource : String) :
    ∀ fields : List Field,
      (describeAll resource fields).map (restate undescribed) = fields.map (restate undescribed)
  | [] => rfl
  | f :: fs => by
    rw [describeAll, List.map_cons, List.map_cons, restate_describe resource f,
      restate_describeAll resource fs]

end

theorem describeAll_eq (resource : String) (fields : List Field) :
    describeAll resource fields = fields.map (describe resource) := by
  induction fields with
  | nil => rfl
  | cons f fs ih => rw [describeAll, ih, List.map_cons]

/-! ## Excluded fields -/

theorem skipExcludedAll_eq (policy : Policy) (inputs : List Scalar) (path : Scalar)
    (fields : List Field) :
    skipExcludedAll policy inputs path fields = fields.map (skipExcluded policy inputs path) := by
  induction fields with
  | nil => rfl
  | cons f fs ih => rw [skipExcludedAll, ih, List.map_cons]

theorem skipExcluded_name (policy : Policy) (inputs : List Scalar) (path : Scalar) (f : Field) :
    (skipExcluded policy inputs path f).name = f.name := by
  cases f
  rfl

mutual

theorem restate_skipExcluded (policy : Policy) (inputs : List Scalar) (path : Scalar) :
    ∀ f : Field, restate unskipped (skipExcluded policy inputs path f) = restate unskipped f
  | ⟨_, item, properties⟩ =>
    restate_congr rfl (restate_skipExcludedItem policy inputs _ item)
      (restate_skipExcludedAll policy inputs _ properties)

theorem restate_skipExcludedItem (policy : Policy) (inputs : List Scalar) (path : Scalar) :
    ∀ item : Option Field,
      (skipExcludedItem policy inputs path item).map (restate unskipped) =
        item.map (restate unskipped)
  | none => rfl
  | some ⟨_, _, properties⟩ =>
    congrArg some (restate_congr rfl rfl (restate_skipExcludedAll policy inputs path properties))

theorem restate_skipExcludedAll (policy : Policy) (inputs : List Scalar) (path : Scalar) :
    ∀ fields : List Field,
      (skipExcludedAll policy inputs path fields).map (restate unskipped) =
        fields.map (restate unskipped)
  | [] => rfl
  | f :: fs => by
    rw [skipExcludedAll, List.map_cons, List.map_cons, restate_skipExcluded policy inputs path f,
      restate_skipExcludedAll policy inputs path fs]

end

/-! ## Who fills a field in -/

mutual

theorem restate_settle (create : Option Field) :
    ∀ f : Field, restate worded (settle create f) = restate worded f
  | ⟨info, item, []⟩ => by
    simp only [settle]
    split
    · exact restate_congr rfl (restate_settleItem create item) rfl
    · exact restate_congr rfl rfl rfl
  | ⟨_, _, f :: fs⟩ => by
    simp only [settle]
    refine restate_congr rfl rfl ?_
    rw [List.map_cons, List.map_cons, restate_settle _ f, restate_settleAll _ fs]

theorem restate_settleItem (create : Option Field) :
    ∀ item : Option Field,
      (settleItem create item).map (restate worded) = item.map (restate worded)
  | none => rfl
  | some ⟨_, _, properties⟩ =>
    congrArg some (restate_congr rfl rfl (restate_settleAll _ properties))

theorem restate_settleAll (accepted : List Field) :
    ∀ fields : List Field,
      (settleAll accepted fields).map (restate worded) = fields.map (restate worded)
  | [] => rfl
  | f :: fs => by
    rw [settleAll, List.map_cons, List.map_cons, restate_settle _ f, restate_settleAll accepted fs]

end

theorem restate_deriveForceNew (updatable : List Scalar) (fields : List Field) :
    (deriveForceNew updatable fields).map (restate worded) = fields.map (restate worded) := by
  unfold deriveForceNew
  rw [List.map_map]
  exact List.map_congr_left fun f _ => restate_congr rfl rfl rfl

/-- What a field says after `deriveForceNew`, if it stands at the end of some steps. -/
def forcedInfo (updatable : List Scalar) (steps : List Step) (f : FieldInfo) : FieldInfo :=
  { f with forceNew :=
      f.forceNew || (steps.isEmpty && (!f.readOnly && !f.name.isAmong updatable)) }

theorem occursAt_deriveForceNew {updatable : List Scalar} {d : Field} {steps : List Step}
    {fields : List Field} (h : OccursAt d steps (deriveForceNew updatable fields)) :
    ∃ f, OccursAt f steps fields ∧
      d.toFieldInfo = forcedInfo updatable steps f.toFieldInfo := by
  cases steps with
  | nil =>
    obtain ⟨f, hf, rfl⟩ := List.mem_map.1 (occursAt_nil_iff.1 h)
    exact ⟨f, .here hf, rfl⟩
  | cons step steps =>
    obtain ⟨g, hg, hname, hd⟩ := occursAt_cons_iff.1 h
    obtain ⟨f, hf, rfl⟩ := List.mem_map.1 hg
    have hinside : ∀ info, step.inside { f with toFieldInfo := info } = step.inside f := by
      intro info
      cases step <;> rfl
    rw [hinside] at hd
    exact ⟨d, occursAt_cons_iff.2 ⟨f, hf, hname, hd⟩, by simp [forcedInfo]⟩

/-! ## Data sources -/

theorem markDataSourceAll_eq (fields : List Field) :
    markDataSourceAll fields = fields.map markDataSource := by
  induction fields with
  | nil => rfl
  | cons f fs ih => rw [markDataSourceAll, ih, List.map_cons]

mutual

theorem restate_markDataSource :
    ∀ f : Field, restate worded (markDataSource f) = restate worded f
  | ⟨_, item, properties⟩ =>
    restate_congr rfl (restate_markDataSourceItem item) (restate_markDataSourceAll properties)

theorem restate_markDataSourceItem :
    ∀ item : Option Field,
      (markDataSourceItem item).map (restate worded) = item.map (restate worded)
  | none => rfl
  | some f => congrArg some (restate_markDataSource f)

theorem restate_markDataSourceAll :
    ∀ fields : List Field,
      (markDataSourceAll fields).map (restate worded) = fields.map (restate worded)
  | [] => rfl
  | f :: fs => by
    rw [markDataSourceAll, List.map_cons, List.map_cons, restate_markDataSource f,
      restate_markDataSourceAll fs]

end

/-! ## One erasure after another -/

/-- Trees that are the same but for less are the same but for more. -/
theorem restate_comp {e e' : FieldInfo → FieldInfo} (he : ∀ info, e (e' info) = e info)
    (f : Field) : restate e (restate e' f) = restate e f := by
  induction f with
  | mk info item properties ihItem ihProperties =>
    have hitem : (item.map (restate e')).map (restate e) = item.map (restate e) := by
      cases item with
      | none => rfl
      | some i => exact congrArg some (ihItem i rfl)
    have hproperties : (properties.map (restate e')).map (restate e) =
        properties.map (restate e) := by
      rw [List.map_map]
      exact List.map_congr_left ihProperties
    simp [restate, he, hitem, hproperties]

/-- Fields that are restated to one tree where less is left out are so where more is. -/
theorem restate_mono {e e' : FieldInfo → FieldInfo} (he : ∀ info, e (e' info) = e info)
    {f g : Field} (h : restate e' f = restate e' g) : restate e f = restate e g := by
  rw [← restate_comp he f, h, restate_comp he]

theorem map_restate_comp {e e' : FieldInfo → FieldInfo} (he : ∀ info, e (e' info) = e info)
    {fields fields' : List Field}
    (h : fields.map (restate e') = fields'.map (restate e')) :
    fields.map (restate e) = fields'.map (restate e) := by
  have hcomp : ∀ fs : List Field, (fs.map (restate e')).map (restate e) = fs.map (restate e) := by
    intro fs
    rw [List.map_map]
    exact List.map_congr_left fun f _ => restate_comp he f
  rw [← hcomp fields, h, hcomp]

theorem silent_describeAll (resource : String) (fields : List Field) :
    (describeAll resource fields).map (restate silent) = fields.map (restate silent) :=
  map_restate_comp silent_undescribed (restate_describeAll resource fields)

end Field

end ApiModels
