/-
ApiModels.Proofs.Field.Sourced — where the descriptions in a field tree come
from.

`Sourced P f` says of every field in `f` that its description is right for
the place at which it stands. Both merges keep it (`Sourced.join`,
`Sourced.joinOrder`): the place of a joined field is that of the fields it
is joined of, and its description is that of one of them. Describing a tree
changes every description in it by the same rule (`Sourced.describe`).

Only places that are named by texts are looked at. There fields that are
joined have one name, not just names that are the same member's.
-/
import ApiModels.Proofs.Field.Origin

namespace ApiModels

namespace Field

/-- What is right for a place: the steps to it, the name there, and a description. -/
abbrev Source := List Step → Scalar → String → Prop

/-- The same below a step. -/
def Source.below (P : Source) (step : Step) : Source := fun steps => P (step :: steps)

/-- The field and all fields inside it have descriptions that are right for their places. -/
def Sourced (P : Source) (f : Field) : Prop :=
  ∀ g steps, OccursAt g steps [f] → TextPlace steps g.name → P steps g.name g.description

theorem TextPlace.cons {step : Step} {steps : List Step} {name : Scalar}
    (hstep : step.name.isText = true) (h : TextPlace steps name) : TextPlace (step :: steps) name :=
  ⟨List.forall_mem_cons.2 ⟨hstep, h.steps⟩, h.name⟩

/-- What occurs in a list occurs in one of its fields. -/
theorem OccursAt.single {d : Field} {steps : List Step} {fields : List Field}
    (h : OccursAt d steps fields) : ∃ f ∈ fields, OccursAt d steps [f] := by
  cases h with
  | here hd => exact ⟨d, hd, .here List.mem_cons_self⟩
  | object hf hd => exact ⟨_, hf, .object List.mem_cons_self hd⟩
  | items hf hitem hd => exact ⟨_, hf, .items List.mem_cons_self hitem hd⟩

section

variable {P Q : Source} {f g : Field}

/-- A field by itself, and then what each step through it leads among. -/
theorem sourced_iff :
    Sourced P f ↔ (f.name.isText = true → P [] f.name f.description ∧
      ∀ step : Step, step.name = f.name → ∀ g ∈ step.inside f, Sourced (P.below step) g) := by
  constructor
  · intro h htext
    refine ⟨h f [] (.here List.mem_cons_self) ⟨nofun, htext⟩, ?_⟩
    intro step hstep g hg d steps hd hplace
    refine h d (step :: steps) ?_ (hplace.cons (hstep ▸ htext))
    exact occursAt_cons_iff.2 ⟨f, List.mem_cons_self, hstep.symm,
      hd.subset (List.cons_subset.2 ⟨hg, List.nil_subset _⟩)⟩
  · intro h d steps hd hplace
    cases steps with
    | nil =>
      have hdf : d = f := List.mem_singleton.1 (occursAt_nil_iff.1 hd)
      subst hdf
      exact (h hplace.name).1
    | cons step steps =>
      obtain ⟨f', hf', hname, hbelow⟩ := occursAt_cons_iff.1 hd
      rw [List.mem_singleton.1 hf'] at hname hbelow
      obtain ⟨g, hg, hd⟩ := hbelow.single
      have htext := hplace.steps step List.mem_cons_self
      exact (h (hname ▸ htext)).2 step hname.symm g hg d steps hd hplace.tail

theorem Sourced.of_occursAt {fields : List Field} (h : ∀ f ∈ fields, Sourced P f) {d : Field}
    {steps : List Step} (hd : OccursAt d steps fields) (hplace : TextPlace steps d.name) :
    P steps d.name d.description := by
  obtain ⟨f, hf, hd⟩ := hd.single
  exact h f hf d steps hd hplace

theorem Sourced.mono (hPQ : ∀ steps name text, P steps name text → Q steps name text)
    (h : Sourced P f) : Sourced Q f :=
  fun g steps hg hplace => hPQ _ _ _ (h g steps hg hplace)

theorem sourced_leaf {info : FieldInfo} (h : P [] info.name info.description) :
    Sourced P (leaf info) := by
  refine sourced_iff.2 fun _ => ⟨h, fun step _ g hg => ?_⟩
  cases step <;> cases hg

/-- Fields that are restated to one tree, descriptions included, have them from the same sources. -/
theorem Sourced.restate_eq {e : FieldInfo → FieldInfo} (he : Keeps e)
    (hdescription : ∀ info, (e info).description = info.description)
    (heq : restate e f = restate e g) (h : Sourced P f) : Sourced P g := by
  intro d steps hd hplace
  have hlists : [g].map (restate e) = [f].map (restate e) := congrArg (fun t => [t]) heq.symm
  obtain ⟨d', hd', hdd'⟩ := hd.restate_eq he hlists
  have hsame := congrArg FieldInfo.description (info_restate_eq hdd')
  rw [hdescription, hdescription] at hsame
  have hname := he.name_eq hdd'
  rw [← hname, ← hsame]
  exact h d' steps hd' (hname ▸ hplace)

/-- Flags of a field do not matter. -/
theorem Sourced.info {info : FieldInfo} (heq : worded info = worded f.toFieldInfo)
    (h : Sourced P f) : Sourced P { f with toFieldInfo := info } := by
  refine h.restate_eq keeps_worded (fun _ => rfl) ?_
  cases f
  exact restate_congr heq.symm rfl rfl

/-! ## Joined fields -/

theorem name_eq_of_same (h : f.name.same g.name = true) (htext : f.name.isText = true) :
    g.name = f.name := by
  obtain ⟨s, hs⟩ := Scalar.isText_iff.1 htext
  rw [hs, Scalar.text_same_iff] at h
  rw [h, hs]

theorem sourced_taken {join : Field → Field → Field} {fresh : Field → Field} {fs gs : List Field}
    (hjoin : ∀ g ∈ gs, ∀ f, f.name.same g.name = true → Sourced P f → Sourced P (join f g))
    (hfresh : ∀ g ∈ gs, Sourced P (fresh g)) (hfs : ∀ f ∈ fs, Sourced P f) :
    ∀ h ∈ sortByName (takeInto join fresh (byName fs) gs), Sourced P h :=
  fun h hh => forall_takeInto (fun f hf => hfs f (mem_byName hf)) hjoin hfresh h
    (mem_sortByName.1 hh)

theorem Sourced.join {g : Field} :
    ∀ {P : Source} {f : Field}, f.name.same g.name = true → Sourced P f → Sourced P g →
      Sourced P (join f g) := by
  induction g using insideInduction with
  | h g ih =>
    intro P f hsame hf hg
    rw [sourced_iff] at hf hg ⊢
    rw [join_name]
    intro htext
    have hname := name_eq_of_same hsame htext
    obtain ⟨hhere, hinside⟩ := hf htext
    obtain ⟨-, hinside'⟩ := hg (hname ▸ htext)
    refine ⟨by rwa [join_eq], fun step hstep => ?_⟩
    have hg' := hinside' step (hstep.trans hname.symm)
    rw [inside_join]
    unfold joinProperties
    split
    · exact hinside step hstep
    · exact sourced_taken (fun h hh f hsame hf => ih step h hh hsame hf (hg' h hh)) hg'
        (hinside step hstep)

theorem joinOrder_description (f g : Field) :
    (Field.joinOrder f g).description =
      if f.description.isEmpty then g.description else f.description := by
  rw [joinOrder_eq]
  split
  · rfl
  · split <;> rfl

theorem inside_joinOrder (f g : Field) (step : Step) :
    step.inside (Field.joinOrder f g) = step.inside f ∨
      step.inside (Field.joinOrder f g) = orderProperties (step.inside f) (step.inside g) := by
  rw [joinOrder_eq]
  split
  · rename_i hitems
    cases step with
    | object n => exact .inl rfl
    | items n =>
      simp only [hasObjectItems, Bool.and_eq_true] at hitems
      obtain ⟨i, hi⟩ := Option.isSome_iff_exists.1 hitems.1.2
      refine .inr ?_
      simp only [Step.inside, itemProperties, hi, Option.map_some, withOrder]
  · split
    · cases step with
      | object n => exact .inr rfl
      | items n => exact .inl rfl
    · cases step <;> exact .inl rfl

theorem Sourced.joinOrder {g : Field} :
    ∀ {P : Source} {f : Field}, f.name.same g.name = true → Sourced P f → Sourced P g →
      Sourced P (joinOrder f g) := by
  induction g using insideInduction with
  | h g ih =>
    intro P f hsame hf hg
    rw [sourced_iff] at hf hg ⊢
    rw [joinOrder_name]
    intro htext
    have hname := name_eq_of_same hsame htext
    obtain ⟨hhere, hinside⟩ := hf htext
    obtain ⟨hhere', hinside'⟩ := hg (hname ▸ htext)
    refine ⟨?_, fun step hstep => ?_⟩
    · rw [joinOrder_description]
      split
      · exact hname ▸ hhere'
      · exact hhere
    · have hg' := hinside' step (hstep.trans hname.symm)
      rcases inside_joinOrder f g step with heq | heq
      · rw [heq]
        exact hinside step hstep
      · rw [heq]
        exact sourced_taken (fun h hh f hsame hf => ih step h hh hsame hf (hg' h hh))
          (fun h hh => (hg' h hh).info rfl) (hinside step hstep)

/-! ## Described fields -/

theorem inside_describe (resource : String) (f : Field) (step : Step) :
    step.inside (describe resource f) = (step.inside f).map (describe resource) := by
  rw [← describeAll_eq]
  obtain ⟨info, item, properties⟩ := f
  cases step with
  | object n => rfl
  | items n =>
    cases item with
    | none => rfl
    | some i =>
      obtain ⟨_, _, _⟩ := i
      rfl

/-- A described field has the description that its name and the one it had ask for. -/
theorem Sourced.describe {resource : String} {f : Field} :
    ∀ {P : Source}, Sourced P f →
      Sourced (fun steps name text => ∃ old, P steps name old ∧
        text = Description.ofField name.display resource old) (describe resource f) := by
  induction f using insideInduction with
  | h f ih =>
    intro P hf
    have hname : (Field.describe resource f).name = f.name := by cases f; rfl
    have hdescription : (Field.describe resource f).description =
        Description.ofField f.name.display resource f.description := by cases f; rfl
    rw [sourced_iff] at hf ⊢
    rw [hname, hdescription]
    intro htext
    obtain ⟨hhere, hinside⟩ := hf htext
    refine ⟨⟨f.description, hhere, rfl⟩, fun step hstep h hh => ?_⟩
    rw [inside_describe] at hh
    obtain ⟨g, hg, rfl⟩ := List.mem_map.1 hh
    exact ih step g hg (hinside step hstep g hg)

end

end Field

end ApiModels
