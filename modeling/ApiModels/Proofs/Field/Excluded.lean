/-
ApiModels.Proofs.Field.Excluded — which fields of a tree a policy excludes.

A policy excludes a field by its name or by its path: the names of the steps
to it and its own, with a dot between them (`pathTo`). A step into the items
of an array counts once, under the name of the array. Marking a tree goes
through it by the same paths and looks at one field at a time
(`occursAt_skipExcludedAll`); item schemas have no names and are not looked
at.
-/
import ApiModels.Proofs.Field.Status

namespace ApiModels

namespace Field

/-- The path, from a path on, to a field at the end of some steps. -/
def pathTo (path : Scalar) : List Step → Scalar → Scalar
  | [], name => dotted path name
  | step :: steps, name => pathTo (dotted path step.name) steps name

/-- What is said of a field at a path when it is marked. -/
def skipInfo (policy : Policy) (inputs : List Scalar) (path : Scalar) (f : FieldInfo) : FieldInfo :=
  { f with schemaSkip := f.schemaSkip || (policy.excludes f.name path && !f.name.isAmong inputs) }

section

variable {policy : Policy} {inputs : List Scalar}

theorem skipExcluded_info (path : Scalar) (f : Field) :
    (skipExcluded policy inputs path f).toFieldInfo =
      skipInfo policy inputs (dotted path f.name) f.toFieldInfo := by
  cases f
  rfl

theorem skipExcluded_item (path : Scalar) (f : Field) :
    (skipExcluded policy inputs path f).item.map Field.toFieldInfo =
      f.item.map Field.toFieldInfo := by
  obtain ⟨info, item, properties⟩ := f
  cases item with
  | none => rfl
  | some i =>
    cases i
    rfl

theorem inside_skipExcluded (path : Scalar) (f : Field) (step : Step) :
    step.inside (skipExcluded policy inputs path f) =
      skipExcludedAll policy inputs (dotted path f.name) (step.inside f) := by
  obtain ⟨info, item, properties⟩ := f
  cases step with
  | object n => rfl
  | items n =>
    cases item with
    | none => rfl
    | some i =>
      cases i
      rfl

/-- A marked field stood at its place before, marked by the path to it; its item schema stays. -/
theorem occursAt_skipExcludedAll {d : Field} {steps : List Step} :
    ∀ {path : Scalar} {fields : List Field},
      OccursAt d steps (skipExcludedAll policy inputs path fields) →
      ∃ f, OccursAt f steps fields ∧
        d.toFieldInfo = skipInfo policy inputs (pathTo path steps f.name) f.toFieldInfo ∧
        d.item.map Field.toFieldInfo = f.item.map Field.toFieldInfo := by
  induction steps with
  | nil =>
    intro path fields hd
    rw [skipExcludedAll_eq, occursAt_nil_iff] at hd
    obtain ⟨f, hf, rfl⟩ := List.mem_map.1 hd
    exact ⟨f, .here hf, skipExcluded_info path f, skipExcluded_item path f⟩
  | cons step steps ih =>
    intro path fields hd
    rw [skipExcludedAll_eq, occursAt_cons_iff] at hd
    obtain ⟨g, hg, hname, hd⟩ := hd
    obtain ⟨f, hf, rfl⟩ := List.mem_map.1 hg
    rw [skipExcluded_name] at hname
    rw [inside_skipExcluded] at hd
    obtain ⟨c, hc, hinfo, hitem⟩ := ih hd
    exact ⟨c, occursAt_cons_iff.2 ⟨f, hf, hname, hc⟩, by rw [pathTo, ← hname]; exact hinfo, hitem⟩

end

end Field

/-- The policy excludes the field of a name at the end of some steps from the root. -/
def Policy.excludesAt (policy : Policy) (steps : List Field.Step) (name : Scalar) : Bool :=
  policy.excludes name (Field.pathTo (.text "") steps name)

end ApiModels
