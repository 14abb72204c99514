/-
ApiModels.Proofs.Field.Tree — places in field trees.

A field is a tree: below it stand its properties, and below its item schema
the properties of its items. This module fixes how such trees are talked
about.

* `OccursAt d steps fields` — the field `d` stands at the end of some steps
  down from a list; `Field.at?` is the field that looking up name by name
  finds there.
* `Describes d fields` — `d` is one of the descriptors in a list, the item
  schemas included, on any level.
* `Level level fields` — a list of fields is a level of a list: the list
  itself, or the properties of a descriptor in it.
* `OnEachLevel T fields` — `T` holds of each level of a list.
* `NestedStruct s fields` — `s` is an object, or the schema of items.
* `Everywhere P f` — `P` holds of `f` and of all descriptors in it.
* `Fits f` — `f` has an item schema exactly if it is an array of objects,
  and properties only if it is an object.
* `Field.restate e` — the same tree with other statements. Two trees that
  are restated to the same tree agree in every place
  (`OccursAt.restate_eq`).
-/
import ApiModels.Field.Basic

namespace ApiModels

namespace Field

/-- Induction over a field tree: the item schema and the properties come before the field. -/
@[elab_as_elim, induction_eliminator]
theorem treeInduction {motive : Field → Prop}
    (mk : ∀ info item properties, (∀ i, item = some i → motive i) →
      (∀ f ∈ properties, motive f) → motive ⟨info, item, properties⟩) (f : Field) : motive f :=
  @Field.rec motive (fun item => ∀ i, item = some i → motive i)
    (fun properties => ∀ f ∈ properties, motive f)
    (fun info item properties hitem hproperties => mk info item properties hitem hproperties)
    (by simp)
    (fun i hi j hj => Option.some.inj hj ▸ hi)
    (by simp)
    (fun g gs hg hgs f hf => by
      rcases List.mem_cons.1 hf with rfl | hf
      · exact hg
      · exact hgs f hf)
    f

/-! ## Places -/

/-- One step down: into the properties of an object, or of the items of an array. -/
inductive Step where
  | object (name : Scalar)
  | items (name : Scalar)
  deriving DecidableEq, Repr

/-- The name of the field that a step leads through. -/
def Step.name : Step → Scalar
  | .object name => name
  | .items name => name

/-- A field stands at the end of some steps down from a list of fields. -/
inductive OccursAt (d : Field) : List Step → List Field → Prop where
  | here {fields} (hd : d ∈ fields) : OccursAt d [] fields
  | object {f : Field} {steps fields} (hf : f ∈ fields) (hd : OccursAt d steps f.properties) :
      OccursAt d (.object f.name :: steps) fields
  | items {f item : Field} {steps fields} (hf : f ∈ fields) (hitem : f.item = some item)
      (hd : OccursAt d steps item.properties) : OccursAt d (.items f.name :: steps) fields

/-- The field that is found by name at the end of some steps. -/
def at? : List Field → List Step → Scalar → Option Field
  | fields, [], name => find? fields name
  | fields, .object n :: steps, name =>
    (find? fields n).bind fun f => at? f.properties steps name
  | fields, .items n :: steps, name =>
    (find? fields n).bind fun f => at? f.itemProperties steps name

/-- The fields that a step through a field leads among. -/
def Step.inside : Step → Field → List Field
  | .object _, f => f.properties
  | .items _, f => f.itemProperties

/-- Induction over a field tree by steps: what a step leads among comes before the field. -/
theorem insideInduction {motive : Field → Prop}
    (h : ∀ f, (∀ step : Step, ∀ g ∈ step.inside f, motive g) → motive f) (f : Field) :
    motive f := by
  -- The item schema of a field is passed over, so its properties are kept beside it.
  suffices hboth : motive f ∧ ∀ g ∈ f.properties, motive g from hboth.1
  induction f with
  | mk info item properties ihItem ihProperties =>
    have hproperties : ∀ g ∈ properties, motive g := fun g hg => (ihProperties g hg).1
    refine ⟨h _ fun step g hg => ?_, hproperties⟩
    cases step with
    | object n => exact hproperties g hg
    | items n =>
      cases item with
      | none => cases hg
      | some i => exact (ihItem i rfl).2 g hg

theorem not_occursAt_nil {d : Field} {steps : List Step} : ¬ OccursAt d steps [] := by
  intro h
  cases h <;> contradiction

theorem occursAt_nil_iff {d : Field} {fields : List Field} :
    OccursAt d [] fields ↔ d ∈ fields := by
  constructor
  · rintro ⟨hd⟩
    exact hd
  · exact .here

theorem occursAt_cons_iff {d : Field} {step : Step} {steps : List Step} {fields : List Field} :
    OccursAt d (step :: steps) fields ↔
      ∃ f ∈ fields, f.name = step.name ∧ OccursAt d steps (step.inside f) := by
  constructor
  · intro h
    cases h with
    | object hf hd => exact ⟨_, hf, rfl, hd⟩
    | items hf hitem hd => exact ⟨_, hf, rfl, by rwa [Step.inside, itemProperties, hitem]⟩
  · rintro ⟨f, hf, hname, hd⟩
    cases step with
    | object n =>
      cases hname
      exact .object hf hd
    | items n =>
      cases hname
      rw [Step.inside, itemProperties] at hd
      cases hitem : f.item with
      | none =>
        rw [hitem] at hd
        cases hd with
        | here hd => cases hd
        | object hf _ => cases hf
        | items hf _ _ => cases hf
      | some item =>
        rw [hitem] at hd
        exact .items hf hitem hd

/-- A descriptor of a list: a field on any level, or the schema of its items. -/
def Describes (d : Field) (fields : List Field) : Prop :=
  (∃ steps, OccursAt d steps fields) ∨
    ∃ steps f, OccursAt f steps fields ∧ f.item = some d

/-- A level of a list: the list itself, or the properties of one of its descriptors. -/
def Level (level fields : List Field) : Prop :=
  level = fields ∨ ∃ d, Describes d fields ∧ level = d.properties

/-- A struct nested in a list: an object on any level, or the schema of items. -/
def NestedStruct (s : Field) (fields : List Field) : Prop :=
  (∃ steps, OccursAt s steps fields ∧ s.isObject = true) ∨
    ∃ steps f, OccursAt f steps fields ∧ f.item = some s

theorem OccursAt.subset {d : Field} {steps : List Step} {fields fields' : List Field}
    (hsub : fields ⊆ fields') (h : OccursAt d steps fields) : OccursAt d steps fields' := by
  cases h with
  | here hd => exact .here (hsub hd)
  | object hf hd => exact .object (hsub hf) hd
  | items hf hitem hd => exact .items (hsub hf) hitem hd

theorem OccursAt.perm {d : Field} {steps : List Step} {fields fields' : List Field}
    (hperm : fields.Perm fields') (h : OccursAt d steps fields) : OccursAt d steps fields' :=
  h.subset hperm.subset

theorem NestedStruct.subset {s : Field} {fields fields' : List Field} (hsub : fields ⊆ fields')
    (h : NestedStruct s fields) : NestedStruct s fields' := by
  rcases h with ⟨steps, hs, hobject⟩ | ⟨steps, f, hf, hitem⟩
  · exact .inl ⟨steps, hs.subset hsub, hobject⟩
  · exact .inr ⟨steps, f, hf.subset hsub, hitem⟩

/-! ## Levels -/

/-- A statement holds of each level of a list. -/
def OnEachLevel (T : List Field → Prop) (fields : List Field) : Prop :=
  ∀ level, Level level fields → T level

theorem OccursAt.of_inside {d f : Field} {steps : List Step} {step : Step} {fields : List Field}
    (hf : f ∈ fields) (hd : OccursAt d steps (step.inside f)) :
    ∃ step', OccursAt d (step' :: steps) fields := by
  cases step with
  | object n => exact ⟨.object f.name, occursAt_cons_iff.2 ⟨f, hf, rfl, hd⟩⟩
  | items n => exact ⟨.items f.name, occursAt_cons_iff.2 ⟨f, hf, rfl, hd⟩⟩

theorem Describes.of_inside {d f : Field} {step : Step} {fields : List Field} (hf : f ∈ fields)
    (hd : Describes d (step.inside f)) : Describes d fields := by
  rcases hd with ⟨steps, hd⟩ | ⟨steps, g, hg, hitem⟩
  · obtain ⟨step', hd'⟩ := hd.of_inside hf
    exact .inl ⟨_, hd'⟩
  · obtain ⟨step', hg'⟩ := hg.of_inside hf
    exact .inr ⟨_, g, hg', hitem⟩

theorem OnEachLevel.here {T : List Field → Prop} {fields : List Field}
    (h : OnEachLevel T fields) : T fields :=
  h fields (.inl rfl)

theorem OnEachLevel.inside {T : List Field → Prop} (hnil : T []) {fields : List Field}
    (h : OnEachLevel T fields) {f : Field} (hf : f ∈ fields) (step : Step) :
    OnEachLevel T (step.inside f) := by
  rintro level (rfl | ⟨d, hd, rfl⟩)
  · cases step with
    | object n => exact h _ (.inr ⟨f, .inl ⟨[], .here hf⟩, rfl⟩)
    | items n =>
      rw [Step.inside, itemProperties]
      cases hitem : f.item with
      | none => exact hnil
      | some i => exact h _ (.inr ⟨i, .inr ⟨[], f, .here hf, hitem⟩, rfl⟩)
  · exact h _ (.inr ⟨d, hd.of_inside hf, rfl⟩)

/-! ## What holds everywhere in a tree -/

/-- A statement holds of a field and of every descriptor in it. -/
inductive Everywhere (P : Field → Prop) : Field → Prop where
  | intro {f : Field} (here : P f) (item : ∀ i, f.item = some i → Everywhere P i)
      (properties : ∀ g ∈ f.properties, Everywhere P g) : Everywhere P f

namespace Everywhere

variable {P Q : Field → Prop} {f : Field}

theorem here (h : Everywhere P f) : P f := by
  cases h with
  | intro h _ _ => exact h

theorem item (h : Everywhere P f) {i : Field} (hi : f.item = some i) : Everywhere P i := by
  cases h with
  | intro _ h _ => exact h i hi

theorem properties (h : Everywhere P f) : ∀ g ∈ f.properties, Everywhere P g := by
  cases h with
  | intro _ _ h => exact h

theorem imp (hPQ : ∀ f, P f → Q f) (h : Everywhere P f) : Everywhere Q f := by
  induction h with
  | intro here _ _ ihItem ihProperties => exact .intro (hPQ _ here) ihItem ihProperties

theorem everywhere_properties (h : Everywhere P f) :
    Everywhere (fun f => ∀ g ∈ f.properties, Everywhere P g) f := by
  induction h with
  | intro _ _ hproperties ihItem ihProperties => exact .intro hproperties ihItem ihProperties

theorem and (hP : Everywhere P f) (hQ : Everywhere Q f) : Everywhere (fun f => P f ∧ Q f) f := by
  induction hP with
  | intro here _ _ ihItem ihProperties =>
    exact .intro ⟨here, hQ.here⟩ (fun i hi => ihItem i hi (hQ.item hi))
      (fun g hg => ihProperties g hg (hQ.properties g hg))

/-- What holds everywhere in the fields of a list holds everywhere in a field that occurs there. -/
theorem of_occursAt {fields : List Field} (h : ∀ f ∈ fields, Everywhere P f) {d : Field}
    {steps : List Step} (hd : OccursAt d steps fields) : Everywhere P d := by
  induction hd with
  | here hd => exact h _ hd
  | object hf _ ih => exact ih (h _ hf).properties
  | items hf hitem _ ih => exact ih ((h _ hf).item hitem).properties

/-- What holds everywhere in the fields of a list holds of whatever is described there. -/
theorem of_describes {fields : List Field} (h : ∀ f ∈ fields, Everywhere P f) {d : Field}
    (hd : Describes d fields) : Everywhere P d := by
  rcases hd with ⟨steps, hd⟩ | ⟨steps, f, hf, hitem⟩
  · exact of_occursAt h hd
  · exact (of_occursAt h hf).item hitem

/-- What holds of a list and of all properties everywhere in it holds of its levels. -/
theorem forall_level {T : List Field → Prop} {fields : List Field} (hfields : T fields)
    (h : ∀ f ∈ fields, Everywhere (fun f => T f.properties) f) :
    ∀ level, Level level fields → T level := by
  rintro level (rfl | ⟨d, hd, rfl⟩)
  · exact hfields
  · exact (of_describes h hd).here

/-- What holds of all properties everywhere in a field holds of those a step leads among. -/
theorem forall_inside {T : Field → Prop} (h : Everywhere (fun f => ∀ g ∈ f.properties, T g) f)
    (step : Step) : ∀ g ∈ step.inside f, T g := by
  cases step with
  | object n => exact h.here
  | items n =>
    intro g hg
    rw [Step.inside, itemProperties] at hg
    cases hitem : f.item with
    | none =>
      rw [hitem] at hg
      cases hg
    | some i =>
      rw [hitem] at hg
      exact (h.item hitem).here g hg

theorem inside (h : Everywhere P f) (step : Step) : ∀ g ∈ step.inside f, Everywhere P g :=
  forall_inside h.everywhere_properties step

end Everywhere

mutual

/-- Checks a field and every descriptor in it. -/
def checkEverywhere (p : Field → Bool) : Field → Bool
  | ⟨info, item, properties⟩ =>
    p ⟨info, item, properties⟩ && checkItem p item && checkAll p properties

/-- Checks an item schema and every descriptor in it. -/
def checkItem (p : Field → Bool) : Option Field → Bool
  | none => true
  | some f => checkEverywhere p f

/-- Checks some fields and every descriptor in them. -/
def checkAll (p : Field → Bool) : List Field → Bool
  | [] => true
  | f :: fs => checkEverywhere p f && checkAll p fs

end

theorem checkAll_iff {p : Field → Bool} {fields : List Field} :
    checkAll p fields = true ↔ ∀ f ∈ fields, checkEverywhere p f = true := by
  induction fields with
  | nil => simp [checkAll]
  | cons f fs ih => simp [checkAll, ih]

theorem checkEverywhere_iff {p : Field → Bool} {f : Field} :
    checkEverywhere p f = true ↔ Everywhere (fun f => p f = true) f := by
  induction f with
  | mk info item properties ihItem ihProperties =>
    rw [checkEverywhere, Bool.and_eq_true, Bool.and_eq_true, checkAll_iff]
    constructor
    · rintro ⟨⟨here, hitem⟩, hproperties⟩
      refine .intro here ?_ fun g hg => (ihProperties g hg).1 (hproperties g hg)
      intro i hi
      cases hi
      exact (ihItem i rfl).1 hitem
    · intro h
      refine ⟨⟨h.here, ?_⟩, fun g hg => (ihProperties g hg).2 (h.properties g hg)⟩
      cases item with
      | none => rfl
      | some i => exact (ihItem i rfl).2 (h.item rfl)

instance {P : Field → Prop} [DecidablePred P] : DecidablePred (Everywhere P) := fun f =>
  decidable_of_iff (checkEverywhere (fun f => decide (P f)) f = true) (by
    rw [checkEverywhere_iff]
    simp only [decide_eq_true_eq])

/-! ## Parts that fit -/

/-- A field has the parts that its kind and the type of its items ask for. -/
structure Fits (f : Field) : Prop where
  item_iff : f.item.isSome = true ↔ f.kind.isSequence = true ∧ f.itemType = some .object
  item_object : ∀ i, f.item = some i → i.kind = .object
  properties_object : f.properties ≠ [] → f.kind = .object

instance : DecidablePred Fits := fun f =>
  decidable_of_iff ((f.item.isSome = true ↔ f.kind.isSequence = true ∧ f.itemType = some .object) ∧
      (∀ i ∈ f.item, i.kind = .object) ∧ (f.properties.isEmpty = false → f.kind = .object)) (by
    constructor
    · rintro ⟨hiff, hitem, hproperties⟩
      exact ⟨hiff, hitem, fun hne => hproperties (by simpa using hne)⟩
    · intro h
      exact ⟨h.item_iff, h.item_object, fun hne => h.properties_object (by simpa using hne)⟩)

theorem Fits.sequence {f i : Field} (h : f.Fits) (hi : f.item = some i) :
    f.kind.isSequence = true :=
  (h.item_iff.1 (by simp [hi])).1

theorem Fits.item_eq_none {f : Field} (h : f.Fits) (hf : f.kind.isSequence = false) :
    f.item = none := by
  cases hi : f.item with
  | none => rfl
  | some i => simp [h.sequence hi] at hf

/-! ## The same tree with other statements -/

mutual

/-- A field with every statement in it changed; its parts stay where they are. -/
def restate (e : FieldInfo → FieldInfo) : Field → Field
  | ⟨info, item, properties⟩ => ⟨e info, restateItem e item, restateAll e properties⟩

/-- An item schema with every statement in it changed. -/
def restateItem (e : FieldInfo → FieldInfo) : Option Field → Option Field
  | none => none
  | some f => some (restate e f)

/-- Fields with every statement in them changed. -/
def restateAll (e : FieldInfo → FieldInfo) : List Field → List Field
  | [] => []
  | f :: fs => restate e f :: restateAll e fs

end

section

variable (e : FieldInfo → FieldInfo)

@[simp] theorem restateItem_eq (item : Option Field) :
    restateItem e item = item.map (restate e) := by
  cases item <;> rfl

@[simp] theorem restateAll_eq (fields : List Field) :
    restateAll e fields = fields.map (restate e) := by
  induction fields with
  | nil => rfl
  | cons f fs ih => rw [restateAll, ih, List.map_cons]

@[simp] theorem restate_toFieldInfo (f : Field) : (restate e f).toFieldInfo = e f.toFieldInfo := by
  cases f; rfl

@[simp] theorem restate_item (f : Field) : (restate e f).item = f.item.map (restate e) := by
  cases f; rw [restate, restateItem_eq]

@[simp] theorem restate_properties (f : Field) :
    (restate e f).properties = f.properties.map (restate e) := by
  cases f; rw [restate, restateAll_eq]

variable {e}

/-- Fields with equal parts and equally restated statements are restated to the same tree. -/
theorem restate_congr {f g : Field} (hinfo : e f.toFieldInfo = e g.toFieldInfo)
    (hitem : f.item.map (restate e) = g.item.map (restate e))
    (hproperties : f.properties.map (restate e) = g.properties.map (restate e)) :
    restate e f = restate e g := by
  cases f; cases g
  simp_all [restate]

/-- A tree all of whose statements stay what they are is restated to itself. -/
theorem restate_eq_self {f : Field} (h : Everywhere (fun f => e f.toFieldInfo = f.toFieldInfo) f) :
    restate e f = f := by
  induction h with
  | @intro f here _ _ ihItem ihProperties =>
    obtain ⟨info, item, properties⟩ := f
    have hitem : item.map (restate e) = item := by
      cases item with
      | none => rfl
      | some i => exact congrArg some (ihItem i rfl)
    have hproperties : properties.map (restate e) = properties :=
      (List.map_congr_left ihProperties).trans (List.map_id' properties)
    rw [restate, restateItem_eq, restateAll_eq, here, hitem, hproperties]

/-- Statements are changed, but not those that say what a field is called and how it is typed. -/
structure Keeps (e : FieldInfo → FieldInfo) : Prop where
  name : ∀ info, (e info).name = info.name
  kind : ∀ info, (e info).kind = info.kind
  itemType : ∀ info, (e info).itemType = info.itemType
  format : ∀ info, (e info).format = info.format

/-- A field of one of two lists that are restated to the same one has a counterpart in the other. -/
theorem exists_restate_eq {fields fields' : List Field}
    (heq : fields.map (restate e) = fields'.map (restate e)) {f : Field} (hf : f ∈ fields) :
    ∃ f' ∈ fields', restate e f' = restate e f := by
  have hmem : restate e f ∈ fields'.map (restate e) := heq ▸ List.mem_map_of_mem hf
  exact List.mem_map.1 hmem

theorem properties_restate_eq {f g : Field} (h : restate e f = restate e g) :
    f.properties.map (restate e) = g.properties.map (restate e) := by
  simpa using congrArg Field.properties h

theorem item_restate_eq {f g : Field} (h : restate e f = restate e g) :
    f.item.map (restate e) = g.item.map (restate e) := by
  simpa using congrArg Field.item h

theorem inside_restate_eq {f g : Field} (h : restate e f = restate e g) (step : Step) :
    (step.inside f).map (restate e) = (step.inside g).map (restate e) := by
  cases step with
  | object n => exact properties_restate_eq h
  | items n =>
    have hitem := item_restate_eq h
    simp only [Step.inside, itemProperties]
    cases hf : f.item with
    | none =>
      rw [hf, Option.map_none] at hitem
      rw [Option.map_eq_none_iff.1 hitem.symm]
    | some i =>
      rw [hf, Option.map_some] at hitem
      obtain ⟨j, hj, hji⟩ := Option.map_eq_some_iff.1 hitem.symm
      rw [hj]
      exact properties_restate_eq hji.symm

theorem info_restate_eq {f g : Field} (h : restate e f = restate e g) :
    e f.toFieldInfo = e g.toFieldInfo := by
  simpa using congrArg Field.toFieldInfo h

theorem Keeps.name_eq (he : Keeps e) {f g : Field} (h : restate e f = restate e g) :
    f.name = g.name := by
  simpa [he.name] using congrArg FieldInfo.name (info_restate_eq h)

theorem names_restate_eq (he : Keeps e) {fields fields' : List Field}
    (heq : fields.map (restate e) = fields'.map (restate e)) : names fields = names fields' := by
  have hnames : ∀ fs : List Field, names (fs.map (restate e)) = names fs := by
    intro fs
    simp [names, he.name, Function.comp_def]
  rw [← hnames fields, heq, hnames]

/-- What occurs in one of two trees that are restated to the same one occurs in the other. -/
theorem OccursAt.restate_eq (he : Keeps e) {d : Field}
    {steps : List Step} {fields fields' : List Field}
    (heq : fields.map (restate e) = fields'.map (restate e)) (h : OccursAt d steps fields) :
    ∃ d', OccursAt d' steps fields' ∧ restate e d' = restate e d := by
  induction h generalizing fields' with
  | here hd =>
    obtain ⟨d', hd', hrestate⟩ := exists_restate_eq heq hd
    exact ⟨d', .here hd', hrestate⟩
  | object hf _ ih =>
    obtain ⟨f', hf', hrestate⟩ := exists_restate_eq heq hf
    obtain ⟨d', hd', hd⟩ := ih (properties_restate_eq hrestate).symm
    exact ⟨d', he.name_eq hrestate ▸ .object hf' hd', hd⟩
  | items hf hitem _ ih =>
    obtain ⟨f', hf', hrestate⟩ := exists_restate_eq heq hf
    have hitems := item_restate_eq hrestate
    rw [hitem, Option.map_some] at hitems
    obtain ⟨item', hitem', hi⟩ := Option.map_eq_some_iff.1 hitems
    obtain ⟨d', hd', hd⟩ := ih (properties_restate_eq hi).symm
    exact ⟨d', he.name_eq hrestate ▸ .items hf' hitem' hd', hd⟩

/-- Two trees that are restated to the same one share what only such statements decide. -/
theorem Everywhere.restate_eq {P : Field → Prop}
    (hP : ∀ f g, restate e f = restate e g → P f → P g) {f : Field} (h : Everywhere P f) :
    ∀ g, restate e f = restate e g → Everywhere P g := by
  induction h with
  | intro here _ _ ihItem ihProperties =>
    intro g hg
    refine .intro (hP _ g hg here) ?_ ?_
    · intro i hi
      have hitems := item_restate_eq hg
      rw [hi, Option.map_some] at hitems
      obtain ⟨j, hj, hij⟩ := Option.map_eq_some_iff.1 hitems
      exact ihItem j hj i hij
    · intro p hp
      obtain ⟨q, hq, hqp⟩ := exists_restate_eq (properties_restate_eq hg).symm hp
      exact ihProperties q hq p hqp

theorem Everywhere.forall_restate_eq {P : Field → Prop}
    (hP : ∀ f g, restate e f = restate e g → P f → P g) {fields fields' : List Field}
    (heq : fields.map (restate e) = fields'.map (restate e))
    (h : ∀ f ∈ fields, Everywhere P f) : ∀ f ∈ fields', Everywhere P f := by
  intro f hf
  obtain ⟨g, hg, hgf⟩ := exists_restate_eq heq.symm hf
  exact (h g hg).restate_eq hP f hgf

theorem Fits.restate_eq (he : Keeps e) {f g : Field} (heq : restate e f = restate e g)
    (h : f.Fits) : g.Fits := by
  have hkind : f.kind = g.kind := by
    simpa [he.kind] using congrArg FieldInfo.kind (info_restate_eq heq)
  have htype : f.itemType = g.itemType := by
    simpa [he.itemType] using congrArg FieldInfo.itemType (info_restate_eq heq)
  constructor
  · have hsome := congrArg Option.isSome (item_restate_eq heq)
    simp only [Option.isSome_map] at hsome
    rw [← hsome, ← hkind, ← htype]
    exact h.item_iff
  · intro i hi
    have hitems := item_restate_eq heq
    rw [hi, Option.map_some] at hitems
    obtain ⟨j, hj, hji⟩ := Option.map_eq_some_iff.1 hitems
    have hkinds := congrArg FieldInfo.kind (info_restate_eq hji)
    rw [he.kind, he.kind] at hkinds
    exact hkinds ▸ h.item_object j hj
  · intro hne
    refine hkind ▸ h.properties_object ?_
    intro hnil
    have hproperties := properties_restate_eq heq
    rw [hnil] at hproperties
    exact hne (List.map_eq_nil_iff.1 hproperties.symm)

end

end Field

end ApiModels
