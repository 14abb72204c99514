/-
ApiModels.Proofs.Field.Absorbing — merging again changes nothing.

A field absorbs another one if joining the two leaves it as it is. It does so
if it says already what the join would add, and if what is inside it absorbs
what is inside the other (`join_eq_self`); a list in order absorbs another
one if each field there is absorbed by the one of its name (`merge_eq_self`).

A field absorbs itself, unless it fills a parameter of a path and is
read-only: a join makes such a field writable. What a field was joined to
absorbs it (`join_join`). Both are inductions by the steps into the second
side, whose parts may stand opposite parts of the first side or opposite
nothing.
-/
import ApiModels.Proofs.Field.Precedence

namespace ApiModels

namespace Field

theorem SortedTexts.merge {fs gs : List Field} (hfs : SortedTexts fs) (hgs : SortedTexts gs) :
    SortedTexts (merge fs gs) :=
  ⟨allTexts_merge.2 ⟨hfs.1, hgs.1⟩, ascending_merge hfs.1 hgs.1⟩

/-! ## Fields that absorb others -/

/-- A field absorbs one that adds nothing to what it says, if what is inside it does so too. -/
theorem join_eq_self {f g : Field} (hinfo : joinInfo f.toFieldInfo g.toFieldInfo = f.toFieldInfo)
    (hinside : ∀ step : Step,
      joinProperties (step.inside f) (step.inside g) = step.inside f) : join f g = f := by
  have hproperties := hinside (.object f.name)
  have hitems := hinside (.items f.name)
  obtain ⟨info, item, properties⟩ := f
  simp only [Step.inside] at hproperties hitems
  rw [join_eq, joinItem_eq, hproperties]
  simp only [hinfo]
  cases item with
  | none => rfl
  | some i =>
    obtain ⟨itemInfo, itemItem, itemProps⟩ := i
    have hgs : (g.item.map Field.properties).getD [] = g.itemProperties := by
      rw [itemProperties]
      cases g.item <;> rfl
    have hkept : joinProperties itemProps g.itemProperties = itemProps := hitems
    rw [hgs, Option.map_some, withJoined, hkept]

theorem joinProperties_eq_self {fs gs : List Field} (h : fs ≠ [] → gs ≠ [] → merge fs gs = fs) :
    joinProperties fs gs = fs := by
  rw [joinProperties_eq_merged, mergedProperties]
  split
  · rename_i hboth
    exact h hboth.1 hboth.2
  · rfl

/-- A list in order absorbs fields if each is absorbed by the one of its name there. -/
theorem merge_eq_self {fs gs : List Field} (hfs : SortedTexts fs) (hgs : SortedTexts gs)
    (h : ∀ g ∈ gs, ∃ f ∈ fs, f.name = g.name ∧ join f g = f) : merge fs gs = fs := by
  have hmerge := hfs.merge hgs
  refine hmerge.2.ext_find? hfs.2 hmerge.1 hfs.1 fun s => ?_
  rw [find?_merge hfs.2.distinct hgs.2.distinct]
  cases hg : find? gs (.text s) with
  | none => cases find? fs (.text s) <;> rfl
  | some g =>
    obtain ⟨hmem, hname⟩ := find?_text_some hg
    obtain ⟨f, hf, hsame, hjoin⟩ := h g hmem
    rw [(find?_text_iff hfs.2.distinct).2 ⟨hf, hsame.trans hname⟩, mergedField?, hjoin]

/-- A merge absorbs its second side, if a join absorbs what was joined in. -/
theorem merge_merge_of_join {fs gs : List Field} (hfs : SortedTexts fs) (hgs : SortedTexts gs)
    (hself : ∀ g ∈ gs, join g g = g)
    (hjoin : ∀ f ∈ fs, ∀ g ∈ gs, join (join f g) g = join f g) :
    merge (merge fs gs) gs = merge fs gs := by
  refine merge_eq_self (hfs.merge hgs) hgs fun g hg => ?_
  obtain ⟨s, hs⟩ := Scalar.isText_iff.1 (hgs.1 g hg)
  have hfound := find?_merge hfs.2.distinct hgs.2.distinct s
  rw [(find?_text_iff hgs.2.distinct).2 ⟨hg, hs⟩] at hfound
  cases hf : find? fs (.text s) with
  | none =>
    rw [hf, mergedField?] at hfound
    exact ⟨g, (find?_text_some hfound).1, rfl, hself g hg⟩
  | some f =>
    rw [hf, mergedField?] at hfound
    obtain ⟨hmem, hname⟩ := find?_text_some hfound
    exact ⟨join f g, hmem, hname.trans hs.symm, hjoin f (find?_text_some hf).1 g hg⟩

/-! ## Fields that can be merged again -/

/-- No field fills a parameter of a path, on any level. -/
def NoPathParams (fields : List Field) : Prop :=
  ∀ steps f, OccursAt f steps fields → f.isPathParam = false

theorem NoPathParams.inside {fields : List Field} (h : NoPathParams fields) {f : Field}
    (hf : f ∈ fields) (step : Step) : NoPathParams (step.inside f) := by
  intro steps g hg
  obtain ⟨step', hg'⟩ := hg.of_inside hf
  exact h _ g hg'

/-- Fields in order, on each level, that fill no parameters of a path. -/
structure Repeatable (fields : List Field) : Prop where
  sorted : OnEachLevel SortedTexts fields
  noPathParams : NoPathParams fields

theorem Repeatable.inside {fields : List Field} (h : Repeatable fields) {f : Field}
    (hf : f ∈ fields) (step : Step) : Repeatable (step.inside f) :=
  ⟨h.sorted.inside sortedTexts_nil hf step, h.noPathParams.inside hf step⟩

theorem joinInfo_self {f : FieldInfo} (h : f.isPathParam = false) : joinInfo f f = f := by
  have hread : (!f.isPathParam && (f.readOnly || f.readOnly)) = f.readOnly := by
    rw [h, Bool.or_self, Bool.not_false, Bool.true_and]
  rw [joinInfo, hread, Bool.or_self]

theorem join_self {f : Field} : f.isPathParam = false →
    (∀ step : Step, Repeatable (step.inside f)) → join f f = f := by
  induction f using insideInduction with
  | h f ih =>
    intro hpath hinside
    refine join_eq_self (joinInfo_self hpath) fun step => joinProperties_eq_self fun _ _ => ?_
    have hsorted := (hinside step).sorted.here
    refine merge_eq_self hsorted hsorted fun g hg => ⟨g, hg, rfl, ?_⟩
    exact ih step g hg ((hinside step).noPathParams [] g (.here hg)) ((hinside step).inside hg)

theorem Repeatable.join_self {fields : List Field} (h : Repeatable fields) :
    ∀ f ∈ fields, join f f = f :=
  fun f hf => Field.join_self (h.noPathParams [] f (.here hf)) (h.inside hf)

theorem joinInfo_joinInfo (f g : FieldInfo) : joinInfo (joinInfo f g) g = joinInfo f g := by
  have hread : ∀ p r r' : Bool, (!p && ((!p && (r || r')) || r')) = (!p && (r || r')) := by decide
  have hcomputed : (f.serverComputed || g.serverComputed || g.serverComputed) =
      (f.serverComputed || g.serverComputed) := by rw [Bool.or_assoc, Bool.or_self]
  simp only [joinInfo, hread, hcomputed]

/-- A join absorbs the field that was joined in, even if the first side fills a parameter. -/
theorem join_join {g : Field} : ∀ {f : Field},
    (∀ step : Step, OnEachLevel SortedTexts (step.inside f)) →
    (∀ step : Step, Repeatable (step.inside g)) → join (join f g) g = join f g := by
  induction g using insideInduction with
  | h g ih =>
    intro f hf hg
    refine join_eq_self ?_ fun step => ?_
    · rw [join_eq]
      exact joinInfo_joinInfo _ _
    · rw [inside_join]
      -- Inside stands a merge, unless one side has nothing there; its joins are one level below.
      refine joinProperties_eq_self fun hne hgne => ?_
      rw [joinProperties_eq_merge (joinProperties_ne_nil_iff.1 hne) hgne]
      refine merge_merge_of_join (hf step).here (hg step).sorted.here (hg step).join_self ?_
      exact fun k hk h hh => ih step h hh ((hf step).inside sortedTexts_nil hk)
        ((hg step).inside hh)

/--
Merging is idempotent and absorbing: fields in order that fill no parameters of a path are what
they are merged to with themselves, and a merge with them is what it is merged to with them again.
-/
theorem merge_absorbs {fs gs : List Field} (hfs : OnEachLevel SortedTexts fs)
    (hgs : OnEachLevel SortedTexts gs) (hpath : NoPathParams gs) :
    merge gs gs = gs ∧ merge (merge fs gs) gs = merge fs gs := by
  have hrepeat : Repeatable gs := ⟨hgs, hpath⟩
  constructor
  · exact merge_eq_self hgs.here hgs.here fun g hg => ⟨g, hg, rfl, hrepeat.join_self g hg⟩
  · refine merge_merge_of_join hfs.here hgs.here hrepeat.join_self fun f hf g hg => ?_
    exact join_join (hfs.inside sortedTexts_nil hf) (hrepeat.inside hg)

/-! ## A machine with disks

Creation takes a disk by its size, which fills a parameter of the path, and a boot sequence; the
server adds an owner, and the state of the disk and of each network.
-/

namespace Sample

def machineInput : List Field :=
  [{ name := .text "boot", type := .object, properties := [.leaf { name := .text "order" }] },
   { name := .text "disk", type := .object
     properties := [.leaf { name := .text "size", isPathParam := true, readOnly := true }] },
   { name := .text "networks", type := .array, itemType := some .object
     item := some { name := .text "", type := .object
                    properties := [.leaf { name := .text "address" }] } }]

def machineOutput : List Field :=
  [{ name := .text "disk", type := .object, readOnly := true
     properties := [.leaf { name := .text "size", readOnly := true },
       .leaf { name := .text "state", serverComputed := true }] },
   { name := .text "networks", type := .array, itemType := some .object
     item := some { name := .text "", type := .object
                    properties := [.leaf { name := .text "address", readOnly := true },
                      .leaf { name := .text "state", readOnly := true }] } },
   .leaf { name := .text "owner", readOnly := true }]

end Sample

theorem merge_absorbs_sample :
    OnEachLevel SortedTexts Sample.machineInput ∧ OnEachLevel SortedTexts Sample.machineOutput ∧
    NoPathParams Sample.machineOutput ∧
    merge Sample.machineOutput Sample.machineOutput = Sample.machineOutput ∧
    merge (merge Sample.machineInput Sample.machineOutput) Sample.machineOutput =
      merge Sample.machineInput Sample.machineOutput ∧
    names (merge Sample.machineInput Sample.machineOutput) =
      [.text "boot", .text "disk", .text "networks", .text "owner"] ∧
    ((merge Sample.machineInput Sample.machineOutput).flatMap Field.properties).map
        (fun f => (f.name, f.readOnly)) =
      [(.text "order", false), (.text "size", false), (.text "state", false)] := by
  have hin : OnEachLevel SortedTexts Sample.machineInput :=
    Everywhere.forall_level (by decide) (by decide)
  have hout : OnEachLevel SortedTexts Sample.machineOutput :=
    Everywhere.forall_level (by decide) (by decide)
  have hpath : NoPathParams Sample.machineOutput := by
    have hall : ∀ f ∈ Sample.machineOutput, Everywhere (fun f => f.isPathParam = false) f := by
      decide
    exact fun steps f hf => (Everywhere.of_occursAt hall hf).here
  obtain ⟨hself, hagain⟩ := merge_absorbs hin hout hpath
  exact ⟨hin, hout, hpath, hself, hagain, by decide, by decide⟩

end Field

end ApiModels
