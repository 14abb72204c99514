/-
ApiModels.Proofs.Field.Depth — how deep fields are nested.

`WithinLevels n fields` — the fields and those nested in them lie on at
most `n` levels; that is, fewer than `n` steps lead to any of them
(`withinLevels_iff`).

Neither merge counts levels. Both recurse into two fields only where both
have something inside, and what one side alone has is taken as it stands,
so a merge is no deeper than the deeper of its sides
(`WithinLevels.join`, `WithinLevels.joinOrder`).
-/
import ApiModels.Proofs.Field.Sourced

namespace ApiModels

namespace Field

/-- Fields lie on at most so many levels, those nested in them included. -/
def WithinLevels : (levels : Nat) → List Field → Prop
  | 0, fields => fields = []
  | levels + 1, fields => ∀ f ∈ fields, ∀ step : Step, WithinLevels levels (step.inside f)

/-- Fields lie on so many levels just if fewer steps lead to any of them. -/
theorem withinLevels_iff {levels : Nat} : ∀ {fields : List Field},
    WithinLevels levels fields ↔ ∀ f steps, OccursAt f steps fields → steps.length < levels := by
  induction levels with
  | zero =>
    intro fields
    rw [WithinLevels]
    constructor
    · rintro rfl f steps h
      cases steps with
      | nil => cases occursAt_nil_iff.1 h
      | cons step steps =>
        obtain ⟨g, hg, -⟩ := occursAt_cons_iff.1 h
        cases hg
    · intro h
      refine List.eq_nil_iff_forall_not_mem.2 fun f hf => ?_
      exact Nat.not_lt_zero _ (h f [] (.here hf))
  | succ levels ih =>
    intro fields
    rw [WithinLevels]
    simp only [ih]
    constructor
    · intro h f steps hf
      cases steps with
      | nil => exact Nat.succ_pos _
      | cons step steps =>
        obtain ⟨g, hg, -, hf⟩ := occursAt_cons_iff.1 hf
        exact Nat.succ_lt_succ (h g hg step f steps hf)
    · intro h g hg step f steps hf
      -- A step is named by the field that it leads through.
      obtain ⟨step', hname, hinside⟩ : ∃ step' : Step, step'.name = g.name ∧
          step'.inside g = step.inside g := by
        cases step with
        | object n => exact ⟨.object g.name, rfl, rfl⟩
        | items n => exact ⟨.items g.name, rfl, rfl⟩
      rw [← hinside] at hf
      have hlength := h f (step' :: steps) (occursAt_cons_iff.2 ⟨g, hg, hname.symm, hf⟩)
      exact Nat.lt_of_succ_lt_succ hlength

theorem withinLevels_nil (levels : Nat) : WithinLevels levels [] := by
  cases levels with
  | zero => rfl
  | succ levels => exact nofun

/-- What is nested in a field lies on at most so many levels. -/
def NestedWithin (levels : Nat) (f : Field) : Prop :=
  ∀ step : Step, WithinLevels levels (step.inside f)

theorem nestedWithin_leaf (levels : Nat) (info : FieldInfo) : NestedWithin levels (leaf info) := by
  intro step
  cases step <;> exact withinLevels_nil levels

theorem NestedWithin.info {levels : Nat} {f : Field} (h : NestedWithin levels f)
    (info : FieldInfo) : NestedWithin levels { f with toFieldInfo := info } := by
  intro step
  cases step with
  | object n => exact h (.object n)
  | items n => exact h (.items n)

theorem withinLevels_restate_eq {e : FieldInfo → FieldInfo} {levels : Nat} :
    ∀ {fields fields' : List Field}, fields.map (restate e) = fields'.map (restate e) →
      WithinLevels levels fields → WithinLevels levels fields' := by
  induction levels with
  | zero =>
    rintro fields fields' heq rfl
    exact List.map_eq_nil_iff.1 heq.symm
  | succ levels ih =>
    intro fields fields' heq h f' hf' step
    obtain ⟨f, hf, hff'⟩ := exists_restate_eq heq.symm hf'
    exact ih (inside_restate_eq hff' step) (h f hf step)

theorem NestedWithin.restate_eq {e : FieldInfo → FieldInfo} {levels : Nat} {f g : Field}
    (heq : restate e f = restate e g) (h : NestedWithin levels f) : NestedWithin levels g :=
  fun step => withinLevels_restate_eq (inside_restate_eq heq step) (h step)

/-! ## Joined fields -/

/-- Fields that are taken in lie no deeper than those they are joined with. -/
theorem withinLevels_takeInto {join : Field → Field → Field} {fresh : Field → Field}
    {levels : Nat}
    (hjoin : ∀ f g, NestedWithin levels f → NestedWithin levels g → NestedWithin levels (join f g))
    (hfresh : ∀ g, NestedWithin levels g → NestedWithin levels (fresh g)) {fs gs : List Field}
    (hfs : WithinLevels (levels + 1) fs) (hgs : WithinLevels (levels + 1) gs) :
    WithinLevels (levels + 1) (sortByName (takeInto join fresh (byName fs) gs)) :=
  fun h hh => forall_takeInto (fun f hf => hfs f (mem_byName hf))
    (fun g hg f _ hf => hjoin f g hf (hgs g hg)) (fun g hg => hfresh g (hgs g hg)) h
    (mem_sortByName.1 hh)

theorem NestedWithin.join {levels : Nat} : ∀ {f g : Field}, NestedWithin levels f →
    NestedWithin levels g → NestedWithin levels (join f g) := by
  induction levels with
  | zero =>
    intro f g hf _ step
    rw [inside_join, hf step]
    rfl
  | succ levels ih =>
    intro f g hf hg step
    rw [inside_join, joinProperties]
    split
    · exact hf step
    · exact withinLevels_takeInto (fun _ _ => ih) (fun _ => id) (hf step) (hg step)

theorem NestedWithin.joinOrder {levels : Nat} : ∀ {f g : Field}, NestedWithin levels f →
    NestedWithin levels g → NestedWithin levels (joinOrder f g) := by
  induction levels with
  | zero =>
    intro f g hf hg step
    rcases inside_joinOrder f g step with heq | heq
    · exact heq ▸ hf step
    · rw [heq, hf step, hg step]
      rfl
  | succ levels ih =>
    intro f g hf hg step
    rcases inside_joinOrder f g step with heq | heq
    · exact heq ▸ hf step
    · rw [heq]
      exact withinLevels_takeInto (fun _ _ => ih) (fun _ h => h.info _) (hf step) (hg step)

end Field

end ApiModels
