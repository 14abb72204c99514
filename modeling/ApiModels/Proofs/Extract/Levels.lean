/-
ApiModels.Proofs.Extract.Levels — the levels of what is extracted.

A level of a walk is entered only if it has fields: an object without any
becomes a map, an array of objects without any is left out. So what is
extracted is well-formed (`extract_formed`).

A walk has one level less to go with each step down, whatever references it
follows, so it is no deeper than the levels it is given
(`walkFrom_withinLevels`).
-/
import ApiModels.Proofs.Extract.Walk
import ApiModels.Proofs.Field.Depth

namespace ApiModels

namespace Extractor

open ApiModels.Field (Everywhere Formed NestedWithin WithinLevels)

variable {x : Extractor} {nested : Nested} {path name : Scalar} {node : Value}

/-! ## One level after the other -/

theorem walk_levelsFrom (depth : Int) : x.walk (x.levelsFrom depth) = x.walkFrom false depth := by
  funext path node
  unfold walkFrom
  cases x.levelsFrom depth <;> rfl

/-- A walk of a level that there is takes the next one from the walk at the next depth. -/
theorem walkFrom_eq_fieldsOf {depth : Int} (hdepth : depth ≤ x.maxDepth) (skip : Bool)
    (path : Scalar) (node : Value) :
    x.walkFrom skip depth path node =
      x.fieldsOf (x.walkFrom false (depth + 1)) (skip && depth == 0) path node := by
  have hlevels : x.levelsFrom depth = x.levelsFrom (depth + 1) + 1 := by
    unfold levelsFrom
    omega
  rw [walkFrom, hlevels, ← walk_levelsFrom]

/-- Where a level is left, the walk goes on one level deeper with the others. -/
theorem levelsFrom_eq_succ {depth : Int} {levels : Nat} (h : x.levelsFrom depth = levels + 1) :
    depth ≤ x.maxDepth ∧ x.levelsFrom (depth + 1) = levels := by
  unfold levelsFrom at h ⊢
  omega

/-! ## Forms -/

theorem formed_itemField (refName : String) {fields : List Field} (hfields : fields ≠ []) :
    (itemField refName fields).Formed where
  fits := ⟨by simp [itemField, AttrKind.ofType, AttrKind.isSequence], nofun, fun _ => rfl⟩
  object := fun _ => hfields
  map := nofun

theorem FieldOf.formed {f : Field} (hof : x.FieldOf nested path name node f) :
    f.Formed ∧ ∀ i, f.item = some i → i.Formed := by
  have hfits := hof.shaped.1.fits
  cases hof with
  | leaf _ _ hkind _ hvalues => exact ⟨⟨hfits, fun h => absurd h hkind, hvalues⟩, nofun⟩
  | items _ _ hkind _ _ _ hfields =>
    refine ⟨Field.formed_of_sequence hfits hkind, fun i hi => ?_⟩
    cases hi
    exact formed_itemField _ hfields
  | object _ _ hkind _ hfields =>
    refine ⟨⟨hfits, fun _ => hfields, fun h => ?_⟩, nofun⟩
    cases hkind.symm.trans h

theorem extract_formed {fields : List Field} (h : x.extract node = .ok fields) :
    ∀ f ∈ fields, Everywhere Formed f := by
  refine extract_induction (G := fun _ _ fields => ∀ f ∈ fields, Everywhere Formed f) ?_ h
  intro nested path node fields inner hlevel f hf
  cases hlevel with
  | nothing => cases hf
  | fields _ _ made _ =>
    obtain ⟨name, v, -, hof⟩ := made f hf
    exact hof.everywhere hof.formed.1 hof.formed.2 fun path v fields _ hwalk =>
      inner path v fields hwalk

/-! ## Depth -/

theorem LevelOf.withinLevels {levels : Nat} {fields : List Field}
    (hlevel : x.LevelOf nested path node fields)
    (inner : ∀ path node fields, nested path node = .ok fields → WithinLevels levels fields) :
    WithinLevels (levels + 1) fields := by
  intro f hf step
  cases hlevel with
  | nothing => cases hf
  | fields _ _ made _ =>
    obtain ⟨name, v, -, hof⟩ := made f hf
    rcases hof.inside step with hnil | ⟨v, hwalk⟩
    · exact hnil ▸ Field.withinLevels_nil levels
    · exact inner _ _ _ hwalk

theorem walk_withinLevels {levels : Nat} : ∀ {path : Scalar} {node : Value} {fields : List Field},
    x.walk levels path node = .ok fields → WithinLevels levels fields := by
  induction levels with
  | zero =>
    intro path node fields h
    exact (Except.ok.inj h).symm
  | succ levels ih =>
    intro path node fields h
    exact (fieldsOf_spec h).withinLevels fun _ _ _ => ih

/-- A walk from some depth on is no deeper than the levels that are left. -/
theorem walkFrom_withinLevels {skip : Bool} {depth : Int} {fields : List Field}
    (h : x.walkFrom skip depth path node = .ok fields) :
    WithinLevels (x.levelsFrom depth) fields := by
  unfold walkFrom at h
  split at h
  · rename_i hlevels
    rw [hlevels]
    exact (Except.ok.inj h).symm
  · rename_i levels hlevels
    rw [hlevels]
    exact (fieldsOf_spec h).withinLevels fun _ _ _ => walk_withinLevels

theorem extract_nestedWithin {fields : List Field} (h : x.extract node = .ok fields) :
    ∀ f ∈ fields, NestedWithin x.maxDepth.toNat f := by
  have hwithin := walkFrom_withinLevels h
  intro f hf
  obtain ⟨levels, hlevels⟩ : ∃ levels, x.levelsFrom 0 = levels + 1 := by
    cases hlevels : x.levelsFrom 0 with
    | zero =>
      rw [hlevels, WithinLevels] at hwithin
      rw [hwithin] at hf
      cases hf
    | succ levels => exact ⟨levels, rfl⟩
  have hmax : levels = x.maxDepth.toNat := by
    rw [levelsFrom] at hlevels
    omega
  rw [hlevels] at hwithin
  exact hmax ▸ hwithin f hf

end Extractor

end ApiModels
