/-
ApiModels.Proofs.Field.Origin — where a merged field comes from.

What stands at a place of a merge is said by what both sides have at that
place (`occursAt_merge`). On the way there a field that both sides have is
entered on both; where one of them has nothing to enter, the place is one
of the other side alone.

Places are those named by texts, and no text stands twice in a list of one
side (`DistinctThroughout`): only then is a place that of one field.
-/
import ApiModels.Proofs.Field.Settle

namespace ApiModels

namespace Field

/-! ## Places without doubles -/

/-- On no level do two fields have one text as a name. -/
def DistinctThroughout (fields : List Field) : Prop :=
  DistinctTexts fields ∧ ∀ f ∈ fields, Everywhere (fun f => DistinctTexts f.properties) f

theorem DistinctThroughout.inside {fields : List Field} (h : DistinctThroughout fields) {f : Field}
    (hf : f ∈ fields) (step : Step) : DistinctThroughout (step.inside f) := by
  refine ⟨?_, (h.2 f hf).inside step⟩
  cases step with
  | object n => exact (h.2 f hf).here
  | items n =>
    rw [Step.inside, itemProperties]
    cases hitem : f.item with
    | none => exact List.nodup_nil
    | some i => exact ((h.2 f hf).item hitem).here

section

variable {join : Field → Field → Field} {fresh : Field → Field}

theorem find?_takeInto (hjoin : ∀ f g, (join f g).name = f.name)
    (hfresh : ∀ g, (fresh g).name = g.name) (s : String) {gs : List Field} :
    ∀ {fs : List Field}, DistinctTexts gs →
      find? (takeInto join fresh fs gs) (.text s) =
        match find? gs (.text s) with
        | none => find? fs (.text s)
        | some g => some (match find? fs (.text s) with
          | some f => join f g
          | none => fresh g) := by
  induction gs with
  | nil => exact fun _ => rfl
  | cons g gs ih =>
    intro fs hdistinct
    rw [takeInto, ih hdistinct.tail, find?_put, find?_cons_text]
    by_cases hg : g.name = .text s
    · have hrest : find? gs (.text s) = none := by
        rw [DistinctTexts, texts_cons_text hg, List.nodup_cons] at hdistinct
        rw [← Option.not_isSome_iff_eq_none, find?_isSome_iff]
        exact hdistinct.1
      rw [hrest, hg, if_pos rfl]
      cases hf : find? fs (.text s) with
      | none => simp only [hfresh, hg, if_true]
      | some f => simp only [hjoin, (find?_text_some hf).2, if_true]
    · rw [if_neg hg, if_neg]
      cases hf : find? fs g.name with
      | none => simpa only [hfresh] using hg
      | some f =>
        intro hname
        have hsame := find?_same hf
        rw [hjoin] at hname
        rw [hname, Scalar.text_same_iff] at hsame
        exact hg hsame

end

theorem distinct_merge (fs gs : List Field) : DistinctTexts (merge fs gs) := by
  rw [merge, mergeInto_eq]
  exact (distinct_takeInto (distinct_byName fs)).perm (sortByName_perm _).symm

/-- What a merge has of a name of which the sides have these. -/
def mergedField? : Option Field → Option Field → Option Field
  | some f, some g => some (join f g)
  | some f, none => some f
  | none, g => g

/-- Under a text a merge has what both sides have there, joined, or what one of them has. -/
theorem find?_merge {fs gs : List Field} (hfs : DistinctTexts fs) (hgs : DistinctTexts gs)
    (s : String) :
    find? (merge fs gs) (.text s) = mergedField? (find? fs (.text s)) (find? gs (.text s)) := by
  rw [merge, mergeInto_eq, find?_sortByName (distinct_takeInto (distinct_byName fs)),
    find?_takeInto join_name id_name s hgs, find?_byName hfs]
  cases find? fs (.text s) <;> cases find? gs (.text s) <;> rfl

/-! ## Places of a merge -/

theorem inside_join (f g : Field) (step : Step) :
    step.inside (join f g) = joinProperties (step.inside f) (step.inside g) := by
  rw [join_eq]
  cases step with
  | object n => rfl
  | items n =>
    simp only [Step.inside, itemProperties, joinItem_eq]
    cases f.item with
    | none => rfl
    | some i => cases g.item <;> rfl

theorem joinProperties_eq_merge {fs gs : List Field} (hfs : fs ≠ []) (hgs : gs ≠ []) :
    joinProperties fs gs = merge fs gs := by
  rw [joinProperties, if_neg (by simp [hfs, hgs]), merge, mergeInto_eq]

theorem allTexts_put (fields : List Field) (f : Field) :
    AllTexts (put fields f) ↔ AllTexts fields ∧ f.name.isText = true := by
  induction fields with
  | nil => simp [put, AllTexts]
  | cons g gs ih =>
    rw [put]
    split
    · rename_i hsame
      rw [allTexts_cons, allTexts_cons, isText_eq_of_same hsame]
      exact ⟨fun h => ⟨h, h.1⟩, fun h => h.1⟩
    · rw [allTexts_cons, allTexts_cons, ih, and_assoc]

theorem allTexts_byName (fields : List Field) : AllTexts (byName fields) ↔ AllTexts fields := by
  have hfold : ∀ gs kept : List Field,
      AllTexts (gs.foldl put kept) ↔ AllTexts kept ∧ AllTexts gs := by
    intro gs
    induction gs with
    | nil => simp [AllTexts]
    | cons g gs ih =>
      intro kept
      rw [List.foldl_cons, ih, allTexts_put, allTexts_cons, and_assoc]
  rw [byName, hfold]
  simp [AllTexts]

theorem allTexts_takeInto {join : Field → Field → Field} {fresh : Field → Field}
    (hjoin : ∀ f g, (join f g).name = f.name) (hfresh : ∀ g, (fresh g).name = g.name)
    {gs : List Field} :
    ∀ {fs : List Field}, AllTexts (takeInto join fresh fs gs) ↔ AllTexts fs ∧ AllTexts gs := by
  induction gs with
  | nil => simp [takeInto, AllTexts]
  | cons g gs ih =>
    intro fs
    rw [takeInto, ih, allTexts_put, allTexts_cons, and_assoc]
    cases hf : find? fs g.name with
    | none => simp only [hfresh]
    | some f =>
      simp only [hjoin, isText_eq_of_same (find?_same hf)]

/-- A merge has names that are no texts if one of the sides has. -/
theorem allTexts_merge {fs gs : List Field} :
    AllTexts (merge fs gs) ↔ AllTexts fs ∧ AllTexts gs := by
  rw [merge, mergeInto_eq, allTexts_perm (sortByName_perm _),
    allTexts_takeInto join_name id_name, allTexts_byName]

/-- Where all names are texts, a merge is in ascending order. -/
theorem ascending_merge {fs gs : List Field} (hfs : AllTexts fs) (hgs : AllTexts gs) :
    Ascending (merge fs gs) := by
  have htexts := allTexts_merge.2 ⟨hfs, hgs⟩
  rw [merge, allTexts_perm (sortByName_perm _)] at htexts
  exact ascending_sortByName htexts ((distinct_merge fs gs).perm (sortByName_perm _))

theorem mem_names_iff {fields : List Field} (h : AllTexts fields) {name : Scalar} :
    name ∈ names fields ↔ ∃ s ∈ texts fields, name = .text s := by
  constructor
  · intro hname
    obtain ⟨s, rfl⟩ := Scalar.isText_iff.1 (h.isText hname)
    exact ⟨s, text_mem_names_iff.1 hname, rfl⟩
  · rintro ⟨s, hs, rfl⟩
    exact text_mem_names_iff.2 hs

/-- Where all names of a merge are texts, they are the names of both sides. -/
theorem mem_names_merge {fs gs : List Field} (h : AllTexts (merge fs gs)) {name : Scalar} :
    name ∈ names (merge fs gs) ↔ name ∈ names fs ∨ name ∈ names gs := by
  obtain ⟨hfs, hgs⟩ := allTexts_merge.1 h
  rw [mem_names_iff h, mem_names_iff hfs, mem_names_iff hgs, ← exists_or]
  refine exists_congr fun s => ?_
  rw [mem_texts_merge, or_and_right]

end Field

end ApiModels
