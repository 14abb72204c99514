/-
ApiModels.Proofs.Field.Form — the forms of fields.

A field is of one of four forms, by its kind (`Field.WellFormed`): a scalar
without parts, an object with properties, a row of elements with an item
schema just if they are objects, or a map of scalars. The form of a row asks
for properties of its item schema too, which merging joins on its own. So
what is carried through merging is a statement about one field without its
parts (`Field.Formed`); where it holds everywhere in a field, the field is
well-formed.
-/
import ApiModels.Proofs.Field.Merge

namespace ApiModels

namespace SemanticType

/-- The types of values that have no parts. -/
def isScalar : SemanticType → Bool
  | .string | .integer | .boolean | .number => true
  | .array | .object | .unknown => false

end SemanticType

namespace Field

/-- A field has the parts that its kind asks for, and no others. -/
def WellFormed (f : Field) : Prop :=
  match f.kind with
  | .string | .int64 | .bool | .float64 => f.properties = [] ∧ f.item = none
  | .object => f.properties ≠ [] ∧ f.item = none
  | .list | .set =>
    f.properties = [] ∧ (f.item.isSome = true ↔ f.itemType = some .object) ∧
      ∀ i, f.item = some i → i.kind = .object ∧ i.properties ≠ []
  | .map =>
    f.properties = [] ∧ f.item = none ∧ ∃ t, f.itemType = some t ∧ t.isScalar = true

/-- The parts of a field fit; if it is an object it has properties, if it is a map scalar values. -/
structure Formed (f : Field) : Prop where
  fits : f.Fits
  object : f.kind = .object → f.properties ≠ []
  map : f.kind = .map → ∃ t, f.itemType = some t ∧ t.isScalar = true

/-- Of a row of elements nothing is asked but that its parts fit. -/
theorem formed_of_sequence {f : Field} (hfits : f.Fits) (hkind : f.kind.isSequence = true) :
    f.Formed := by
  refine ⟨hfits, fun h => ?_, fun h => ?_⟩ <;>
  · rw [h] at hkind
    cases hkind

theorem formed_joinable : Joinable Formed := by
  intro f g h hf hg hj
  refine ⟨fits_joinable f g h hf.fits hg.fits hj, ?_, ?_⟩
  · rw [hj.kind]
    exact fun hkind => hj.nonempty (hf.object hkind)
  · rw [hj.kind, hj.itemType]
    exact hf.map

theorem Formed.restate_eq {e : FieldInfo → FieldInfo} (he : Keeps e) {f g : Field}
    (heq : restate e f = restate e g) (h : f.Formed) : g.Formed := by
  have hkind : f.kind = g.kind := by
    simpa [he.kind] using congrArg FieldInfo.kind (info_restate_eq heq)
  have htype : f.itemType = g.itemType := by
    simpa [he.itemType] using congrArg FieldInfo.itemType (info_restate_eq heq)
  refine ⟨h.fits.restate_eq he heq, fun hobject hnil => ?_, ?_⟩
  · have hproperties := properties_restate_eq heq
    rw [hnil] at hproperties
    exact h.object (hkind.trans hobject) (List.map_eq_nil_iff.1 hproperties)
  · rw [← hkind, ← htype]
    exact h.map

theorem Formed.properties_eq_nil {f : Field} (h : f.Formed) (hkind : f.kind ≠ .object) :
    f.properties = [] :=
  Classical.byContradiction fun hne => hkind (h.fits.properties_object hne)

/-- A field all of whose parts are formed is well-formed. -/
theorem wellFormed_of_everywhere {f : Field} (h : Everywhere Formed f) : f.WellFormed := by
  have hf := h.here
  have hsequence : ∀ {kind}, f.kind = kind → kind.isSequence = true →
      f.properties = [] ∧ (f.item.isSome = true ↔ f.itemType = some .object) ∧
        ∀ i, f.item = some i → i.kind = .object ∧ i.properties ≠ [] := by
    rintro kind rfl hkind
    refine ⟨hf.properties_eq_nil ?_, ?_, fun i hi => ?_⟩
    · intro hobject
      rw [hobject] at hkind
      cases hkind
    · rw [hf.fits.item_iff, and_iff_right hkind]
    · have hobject := hf.fits.item_object i hi
      exact ⟨hobject, (h.item hi).here.object hobject⟩
  have hnone : ∀ {kind}, f.kind = kind → kind.isSequence = false → f.item = none := by
    rintro kind rfl hkind
    exact hf.fits.item_eq_none hkind
  have hnil : ∀ {kind}, f.kind = kind → kind ≠ .object → f.properties = [] := by
    rintro kind rfl hkind
    exact hf.properties_eq_nil hkind
  unfold WellFormed
  cases hkind : f.kind with
  | string | int64 | bool | float64 => exact ⟨hnil hkind nofun, hnone hkind rfl⟩
  | object => exact ⟨hf.object hkind, hnone hkind rfl⟩
  | list | set => exact hsequence hkind rfl
  | map => exact ⟨hnil hkind nofun, hnone hkind rfl, hf.map hkind⟩

/-- Of a row of elements the meta information is nested just if the elements are objects. -/
theorem sequence_isNested_iff (kind : AttrKind) (itemType : Option SemanticType) :
    (TypeMeta.sequence kind (.ofItemType (itemType.getD .unknown))).isNested = true ↔
      itemType = some .object := by
  unfold TypeMeta.sequence
  cases itemType with
  | none => simp [AttrKind.ofItemType, AttrKind.ofType]
  | some t => cases t <;> simp [AttrKind.ofItemType, AttrKind.ofType]

/-- An emitter is told that a well-formed field is nested just if there are fields inside it. -/
theorem WellFormed.isNested_iff {f : Field} (h : f.WellFormed) :
    f.typeMeta.isNested = true ↔ f.properties ≠ [] ∨ f.itemProperties ≠ [] := by
  have hitems : ∀ kind, f.properties = [] → (f.item.isSome = true ↔ f.itemType = some .object) →
      (∀ i, f.item = some i → i.kind = .object ∧ i.properties ≠ []) →
      ((TypeMeta.sequence kind (.ofItemType (f.itemType.getD .unknown))).isNested = true ↔
        f.properties ≠ [] ∨ f.itemProperties ≠ []) := by
    intro kind hnil hiff hitem
    rw [sequence_isNested_iff, ← hiff, itemProperties]
    cases hi : f.item with
    | none => simp [hnil]
    | some i => simp [(hitem i hi).2]
  unfold WellFormed at h
  unfold typeMeta TypeMeta.resolve
  cases hkind : f.kind with
  | string | int64 | bool | float64 =>
    simp only [hkind] at h ⊢
    simp [TypeMeta.scalar, h.1, h.2, itemProperties]
  | object =>
    simp only [hkind] at h ⊢
    simp [TypeMeta.object, h.1]
  | list | set =>
    simp only [hkind] at h ⊢
    exact hitems _ h.1 h.2.1 h.2.2
  | map =>
    simp only [hkind] at h ⊢
    simp [TypeMeta.map, h.1, h.2.1, itemProperties]

end Field

end ApiModels
