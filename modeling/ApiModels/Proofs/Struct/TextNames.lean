/-
ApiModels.Proofs.Struct.TextNames — fields that are named by texts, on every
level.

Names that are texts pass all that later steps ask of names: they can be put
in order, described, joined to paths and titled. So where all names in a
field tree are texts (`TextNames`), no step stops at it. The checks follow
the tree, and `TextNames.check` does so once for all of them.
-/
import ApiModels.Field.Names
import ApiModels.Proofs.Struct.Naming
import ApiModels.Proofs.Value.Reading

namespace ApiModels

namespace Field

/-- A field and all fields inside it are named by texts. -/
def TextNames (f : Field) : Prop :=
  f.name.isText = true ∧ Everywhere (fun f => ∀ g ∈ f.properties, g.name.isText = true) f

theorem textNames_restate_eq {e : FieldInfo → FieldInfo} (he : Keeps e)
    {fields fields' : List Field} (heq : fields.map (restate e) = fields'.map (restate e))
    (h : ∀ f ∈ fields, TextNames f) : ∀ f ∈ fields', TextNames f := by
  intro f' hf'
  obtain ⟨f, hf, hff'⟩ := exists_restate_eq heq.symm hf'
  obtain ⟨hname, hinside⟩ := h f hf
  refine ⟨he.name_eq hff' ▸ hname, hinside.restate_eq (fun g g' hgg' hg p' hp' => ?_) f' hff'⟩
  obtain ⟨p, hp, hpp'⟩ := exists_restate_eq (properties_restate_eq hgg').symm hp'
  exact he.name_eq hpp' ▸ hg p hp

theorem textNames_of_nameable {f : Field} (hfits : Everywhere Fits f) (h : nameable f = true) :
    TextNames f :=
  ⟨isText_of_nameable h, names_isText hfits fun _ hs => nameable_of_struct h hs⟩

theorem textNames_sortByName {fields : List Field} (h : ∀ f ∈ fields, TextNames f) :
    ∀ f ∈ sortByName fields, TextNames f :=
  fun f hf => h f (mem_sortByName.1 hf)

/-- What a field passes if its name is a text and the fields inside pass it, such a tree passes. -/
theorem TextNames.check {C : Field → Prop}
    (step : ∀ f : Field, f.name.isText = true → (∀ s : Step, ∀ g ∈ s.inside f, C g) → C f)
    {f : Field} (h : TextNames f) : C f := by
  induction f using insideInduction with
  | h f ih =>
    obtain ⟨hname, hinside⟩ := h
    exact step f hname fun s g hg =>
      ih s g hg ⟨hinside.forall_inside s g hg, hinside.inside s g hg⟩

/-! ## Order -/

theorem sortableAll_iff {fields : List Field} :
    sortableAll fields = true ↔ ∀ f ∈ fields, sortable f = true := by
  induction fields with
  | nil => simp [sortableAll]
  | cons f fs ih => simp [sortableAll, ih]

theorem sortable_of_texts {f : Field}
    (h : Everywhere (fun f => ∀ g ∈ f.properties, g.name.isText = true) f) : sortable f = true := by
  induction h with
  | @intro f here _ _ ihItem ihProperties =>
    obtain ⟨info, item, properties⟩ := f
    rw [sortable, Bool.and_eq_true, Bool.and_eq_true, sortableAll_iff]
    refine ⟨⟨?_, allComparable_of_texts (List.forall_mem_map.2 here)⟩, ihProperties⟩
    cases item with
    | none => rfl
    | some i => exact ihItem i rfl

theorem requireSortable_ok {fields : List Field} (h : ∀ f ∈ fields, TextNames f) :
    ∃ fields', requireSortable fields = .ok fields' := by
  refine ⟨fields, if_pos ?_⟩
  rw [Bool.and_eq_true, sortableAll_iff]
  exact ⟨allComparable_of_texts (List.forall_mem_map.2 fun f hf => (h f hf).1),
    fun f hf => sortable_of_texts (h f hf).2⟩

/-! ## Descriptions -/

theorem describableAll_iff {fields : List Field} :
    describableAll fields = true ↔ ∀ f ∈ fields, describable f = true := by
  induction fields with
  | nil => simp [describableAll]
  | cons f fs ih => simp [describableAll, ih]

theorem TextNames.describable {f : Field} (h : TextNames f) : f.describable = true := by
  refine h.check (C := fun f => f.describable = true) fun f hname inside => ?_
  obtain ⟨info, item, properties⟩ := f
  have hproperties : describableAll properties = true :=
    describableAll_iff.2 (inside (.object info.name))
  have hitem : describableItem item = true := by
    cases item with
    | none => rfl
    | some i =>
      obtain ⟨_, _, _⟩ := i
      exact describableAll_iff.2 (inside (.items info.name))
  rw [Field.describable, hitem, hproperties, hasDescription, hname]
  rfl

theorem requireDescribable_ok {fields : List Field} (h : ∀ f ∈ fields, TextNames f) :
    ∃ fields', requireDescribable fields = .ok fields' :=
  ⟨fields, if_pos (describableAll_iff.2 fun f hf => (h f hf).describable)⟩

/-! ## Paths -/

variable {policy : Policy} {inputs : List Scalar}

theorem hasTellablePathsAmong_iff {path : Scalar} {fields : List Field} :
    hasTellablePathsAmong policy inputs path fields = true ↔
      ∀ f ∈ fields, hasTellablePaths policy inputs path f = true := by
  induction fields with
  | nil => simp [hasTellablePathsAmong]
  | cons f fs ih => simp [hasTellablePathsAmong, ih]

theorem TextNames.hasTellablePaths {f : Field} (h : TextNames f) :
    ∀ path, path.isText = true → f.hasTellablePaths policy inputs path = true := by
  refine h.check (C := fun f => ∀ path, path.isText = true →
    f.hasTellablePaths policy inputs path = true) fun f hname inside path hpath => ?_
  obtain ⟨info, item, properties⟩ := f
  have hinner := dotted_isText path hname
  have hproperties :
      hasTellablePathsAmong policy inputs (dotted path info.name) properties = true :=
    hasTellablePathsAmong_iff.2 fun g hg => inside (.object info.name) g hg _ hinner
  have hitem : itemHasTellablePaths policy inputs (dotted path info.name) item = true := by
    cases item with
    | none => rfl
    | some i =>
      obtain ⟨_, _, _⟩ := i
      exact hasTellablePathsAmong_iff.2 fun g hg => inside (.items info.name) g hg _ hinner
  rw [Field.hasTellablePaths, hproperties, hitem, canBeDotted_of_texts hpath hname,
    canBeTold_of_isText hinner]
  simp

theorem markExcluded_ok {fields : List Field} (h : ∀ f ∈ fields, TextNames f) :
    ∃ fields', markExcluded policy inputs (.text "") fields = .ok fields' :=
  ⟨_, if_pos (hasTellablePathsAmong_iff.2 fun f hf => (h f hf).hasTellablePaths _ rfl)⟩

/-! ## Names of structs -/

theorem TextNames.nameable {f : Field} (h : TextNames f) : f.nameable = true := by
  refine h.check (C := fun f => f.nameable = true) fun f hname inside => ?_
  obtain ⟨info, item, properties⟩ := f
  rw [Field.nameable, Bool.and_eq_true]
  refine ⟨hname, ?_⟩
  split
  · exact nameableAll_iff.2 (inside (.object info.name))
  · split
    · cases item with
      | none => rfl
      | some i =>
        obtain ⟨_, _, _⟩ := i
        exact nameableAll_iff.2 (inside (.items info.name))
    · rfl

theorem nameStructs_ok {fields : List Field} (h : ∀ f ∈ fields, TextNames f)
    (registry : NameRegistry) :
    ∃ named registry', nameStructs "" registry fields = (.ok named, registry') :=
  ⟨_, _, if_pos (nameableAll_iff.2 fun f hf => (h f hf).nameable)⟩

end Field

end ApiModels
