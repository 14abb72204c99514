/-
ApiModels.Proofs.Field.Precedence — a merge is what its order of precedence
says, and nothing else is.

`IsMerge fs gs hs` says what a merge `hs` of `fs` and `gs` has: the names
of both, in order; a field of one side alone as it stands; and of a name
that both have, the first side's field with what the second one adds to it
(`precedence`). The properties of such a field are merged in their turn, so
what is said of one level is said of all below it.

Sides whose fields are named by distinct texts leave no choice: `merge` is
the one list that such a statement holds of (`eq_merge_iff`).
-/
import ApiModels.Proofs.Field.Origin

namespace ApiModels

namespace Field

/-! ## The specification -/

/-- The properties of a field that both sides have: merged if both have some, else the first's. -/
def mergedProperties (fs gs : List Field) : List Field :=
  if fs ≠ [] ∧ gs ≠ [] then merge fs gs else fs

/-- What the field `f` becomes beside a field `g` of the same name: `f` takes precedence. -/
def precedence (f g : Field) : Field :=
  { f with
    readOnly := if f.isPathParam then false else f.readOnly || g.readOnly
    serverComputed := f.serverComputed || g.serverComputed
    properties := mergedProperties f.properties g.properties
    item := f.item.map fun i =>
      { i with properties := mergedProperties i.properties g.itemProperties } }

/-- A list is the merge of two others, of which the first one takes precedence. -/
structure IsMerge (fs gs hs : List Field) : Prop where
  ascending : Ascending hs
  names : ∀ name, name ∈ Field.names hs ↔ name ∈ Field.names fs ∨ name ∈ Field.names gs
  first : ∀ h ∈ hs, h.name ∉ Field.names gs → h ∈ fs
  second : ∀ h ∈ hs, h.name ∉ Field.names fs → h ∈ gs
  both : ∀ h ∈ hs, ∀ f ∈ fs, ∀ g ∈ gs, f.name = h.name → g.name = h.name → h = precedence f g

/-! ## What a merge has -/

theorem joinProperties_eq_merged (fs gs : List Field) :
    joinProperties fs gs = mergedProperties fs gs := by
  unfold mergedProperties
  split
  · rename_i hboth
    exact joinProperties_eq_merge hboth.1 hboth.2
  · rename_i hempty
    rw [joinProperties, if_pos]
    rw [Bool.or_eq_true, List.isEmpty_iff, List.isEmpty_iff]
    rwa [not_and_or, ne_eq, ne_eq, not_not, not_not] at hempty

theorem join_eq_precedence (f g : Field) : join f g = precedence f g := by
  have hjoined : ∀ hs : List Field, withJoined hs =
      fun i => { i with properties := mergedProperties i.properties hs } := by
    intro hs
    funext i
    rw [withJoined, joinProperties_eq_merged]
  have hitem : ((g.item.map Field.properties).getD []) = g.itemProperties := by
    unfold itemProperties
    cases g.item <;> rfl
  have hread : (!f.isPathParam && (f.readOnly || g.readOnly)) =
      if f.isPathParam then false else f.readOnly || g.readOnly := by
    cases f.isPathParam <;> rfl
  rw [join_eq, joinItem_eq, precedence, joinProperties_eq_merged, hitem, hjoined, joinInfo, hread]

/-- What stands in a merge under a text is what was found there. -/
theorem mergedField?_of_mem {fs gs : List Field} (hdfs : DistinctTexts fs)
    (hdgs : DistinctTexts gs) {h : Field} (hmem : h ∈ merge fs gs) {s : String}
    (hname : h.name = .text s) :
    mergedField? (find? fs (.text s)) (find? gs (.text s)) = some h := by
  rw [← find?_merge hdfs hdgs]
  exact (find?_text_iff (distinct_merge fs gs)).2 ⟨hmem, hname⟩

theorem isMerge_merge {fs gs : List Field} (hfs : AllTexts fs) (hgs : AllTexts gs)
    (hdfs : DistinctTexts fs) (hdgs : DistinctTexts gs) : IsMerge fs gs (merge fs gs) := by
  have htexts : AllTexts (merge fs gs) := allTexts_merge.2 ⟨hfs, hgs⟩
  refine ⟨ascending_merge hfs hgs, fun name => mem_names_merge htexts, ?_, ?_, ?_⟩
  · intro h hh hnot
    obtain ⟨s, hs⟩ := Scalar.isText_iff.1 (htexts h hh)
    have hfound := mergedField?_of_mem hdfs hdgs hh hs
    rw [hs] at hnot
    rw [find?_eq_none hnot] at hfound
    cases hf : find? fs (.text s) with
    | none =>
      rw [hf] at hfound
      cases hfound
    | some f =>
      rw [hf] at hfound
      cases hfound
      exact (find?_text_some hf).1
  · intro h hh hnot
    obtain ⟨s, hs⟩ := Scalar.isText_iff.1 (htexts h hh)
    have hfound := mergedField?_of_mem hdfs hdgs hh hs
    rw [hs] at hnot
    rw [find?_eq_none hnot, mergedField?] at hfound
    exact (find?_text_some hfound).1
  · intro h hh f hf g hg hfname hgname
    obtain ⟨s, hs⟩ := Scalar.isText_iff.1 (htexts h hh)
    have hfound := mergedField?_of_mem hdfs hdgs hh hs
    rw [(find?_text_iff hdfs).2 ⟨hf, hfname.trans hs⟩,
      (find?_text_iff hdgs).2 ⟨hg, hgname.trans hs⟩, mergedField?] at hfound
    rw [← join_eq_precedence]
    exact (Option.some.inj hfound).symm

/-! ## Nothing else is a merge -/

/-- A field of one merge is a field of every merge of the same sides. -/
theorem IsMerge.subset {fs gs hs hs' : List Field} (hfs : AllTexts fs) (hgs : AllTexts gs)
    (hdfs : DistinctTexts fs) (hdgs : DistinctTexts gs) (hmerge : IsMerge fs gs hs)
    (hmerge' : IsMerge fs gs hs') : hs ⊆ hs' := by
  intro h hh
  have hside := (hmerge.names h.name).1 (List.mem_map_of_mem hh)
  obtain ⟨h', hh', hname⟩ := List.mem_map.1 ((hmerge'.names h.name).2 hside)
  suffices heq : h = h' from heq ▸ hh'
  -- The other merge has a field of this name too, and the sides leave no choice what it is.
  by_cases hsecond : h.name ∈ Field.names gs
  · by_cases hfirst : h.name ∈ Field.names fs
    · obtain ⟨f, hf, hfname⟩ := List.mem_map.1 hfirst
      obtain ⟨g, hg, hgname⟩ := List.mem_map.1 hsecond
      rw [hmerge.both h hh f hf g hg hfname hgname,
        hmerge'.both h' hh' f hf g hg (hfname.trans hname.symm) (hgname.trans hname.symm)]
    · exact hgs.eq_of_name_eq hdgs (hmerge.second h hh hfirst)
        (hmerge'.second h' hh' (hname ▸ hfirst)) hname.symm
  · exact hfs.eq_of_name_eq hdfs (hmerge.first h hh hsecond)
      (hmerge'.first h' hh' (hname ▸ hsecond)) hname.symm

/--
Of two sides whose fields are named by distinct texts, a list is the merge exactly if it is what
precedence says: the names of both sides in order, what one side alone has as it stands, and of what
both have the first side's field, with what the second one adds to it.
-/
theorem eq_merge_iff {fs gs : List Field} (hfs : AllTexts fs) (hgs : AllTexts gs)
    (hdfs : DistinctTexts fs) (hdgs : DistinctTexts gs) {hs : List Field} :
    hs = merge fs gs ↔ IsMerge fs gs hs := by
  have hmerge := isMerge_merge hfs hgs hdfs hdgs
  constructor
  · rintro rfl
    exact hmerge
  · intro h
    refine h.ascending.ext hmerge.ascending fun f => ?_
    exact ⟨fun hf => h.subset hfs hgs hdfs hdgs hmerge hf,
      fun hf => hmerge.subset hfs hgs hdfs hdgs h hf⟩

/-! ## A disk that is owned

Creation takes a disk by its size, which fills a parameter of the path; the server adds an owner.
-/

namespace Sample

def diskInput : List Field :=
  [{ name := .text "disk", type := .object
     properties := [.leaf { name := .text "size", isPathParam := true }] }]

def diskOutput : List Field :=
  [.leaf { name := .text "owner", readOnly := true },
   { name := .text "disk", type := .object, readOnly := true
     properties := [.leaf { name := .text "size", readOnly := true }] }]

end Sample

theorem eq_merge_iff_sample :
    AllTexts Sample.diskInput ∧ AllTexts Sample.diskOutput ∧
    DistinctTexts Sample.diskInput ∧ DistinctTexts Sample.diskOutput ∧
    IsMerge Sample.diskInput Sample.diskOutput (merge Sample.diskInput Sample.diskOutput) ∧
    (merge Sample.diskInput Sample.diskOutput).map (fun f => (f.name, f.readOnly)) =
      [(.text "disk", true), (.text "owner", true)] ∧
    (merge Sample.diskInput Sample.diskOutput).map (fun f => f.properties.map (·.readOnly)) =
      [[false], []] := by
  have hin : AllTexts Sample.diskInput := by unfold AllTexts; decide
  have hout : AllTexts Sample.diskOutput := by unfold AllTexts; decide
  have hdin : DistinctTexts Sample.diskInput := by unfold DistinctTexts; decide
  have hdout : DistinctTexts Sample.diskOutput := by unfold DistinctTexts; decide
  exact ⟨hin, hout, hdin, hdout, (eq_merge_iff hin hout hdin hdout).1 rfl, by decide, by decide⟩

end Field

end ApiModels
