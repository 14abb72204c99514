/-
ApiModels.Proofs.Struct.Repeated — naming structs that have been named.

The trees that naming leaves as they are, whatever the path, are those in
which every struct has the name that is registered for its fingerprint
(`assign_eq_self_iff`). A tree that was named is one of them, for the registry
that it was named with and for every registry that this one grows to. So a
second naming changes neither the tree nor the registry
(`nameStructs_repeated`), although the fingerprints of outer structs are now
made with the names of inner ones that the first naming gave.

`nameable_restate_eq`: names of structs have no part in whether a tree can be
named.
-/
import ApiModels.Proofs.Struct.Sharing

namespace ApiModels

namespace Field

/-! ## Trees that can be named -/

/-- A struct stands around the fields that some step into its field leads among. -/
theorem struct?_inside {f s : Field} (hs : f.struct? = some s) :
    ∃ step : Step, step.inside f = s.properties := by
  unfold struct? at hs
  split at hs
  · cases hs
    exact ⟨.object f.name, rfl⟩
  · split at hs
    · refine ⟨.items f.name, ?_⟩
      simp only [Step.inside, itemProperties, hs]
    · cases hs

theorem nameable_iff {f : Field} :
    nameable f = true ↔ f.name.isText = true ∧
      ∀ s, f.struct? = some s → ∀ g ∈ s.properties, nameable g = true := by
  refine ⟨fun h => ⟨isText_of_nameable h, fun _ => nameable_of_struct h⟩, ?_⟩
  rintro ⟨hname, hinside⟩
  obtain ⟨info, item, properties⟩ := f
  rw [nameable, Bool.and_eq_true]
  refine ⟨hname, ?_⟩
  split
  · rename_i hkind
    exact nameableAll_iff.2 (hinside _ (struct?_of_object (by simpa using hkind)))
  · split
    · rename_i hsequence
      cases item with
      | none => rfl
      | some i =>
        obtain ⟨_, _, _⟩ := i
        exact nameableAll_iff.2 (hinside _ (struct?_of_sequence hsequence))
    · rfl

/-- Trees that differ in names of structs can both be named, or neither. -/
theorem nameable_restate_eq {e : FieldInfo → FieldInfo} (he : Keeps e) {f : Field} :
    nameable f = true → ∀ g, restate e f = restate e g → nameable g = true := by
  induction f using insideInduction with
  | h f ih =>
    intro hf g hfg
    obtain ⟨hname, hinside⟩ := nameable_iff.1 hf
    refine nameable_iff.2 ⟨he.name_eq hfg ▸ hname, fun t ht q hq => ?_⟩
    have hstructs : f.struct?.map (restate e) = some (restate e t) := by
      rw [← struct?_restate he, hfg, struct?_restate he, ht, Option.map_some]
    obtain ⟨s, hs, hst⟩ := Option.map_eq_some_iff.1 hstructs
    obtain ⟨p, hp, hpq⟩ := exists_restate_eq (properties_restate_eq hst).symm hq
    obtain ⟨step, hstep⟩ := struct?_inside hs
    exact ih step p (hstep ▸ hp) (hinside s hs p hp) q hpq

theorem nameableAll_assignAll {path : String} {r : NameRegistry} {fields : List Field}
    (h : nameableAll fields = true) : nameableAll (assignAll path r fields).1 = true := by
  refine nameableAll_iff.2 fun g hg => ?_
  obtain ⟨f, hf, hfg⟩ := exists_restate_eq (restate_assignAll path r fields) hg
  exact nameable_restate_eq keeps_withoutRef (nameableAll_iff.1 h f hf) g hfg

/-! ## Trees that naming leaves as they are -/

theorem assignAll_eq_self {path : String} {r : NameRegistry} {fields : List Field}
    (h : ∀ f ∈ fields, assign path r f = (f, r)) : assignAll path r fields = (fields, r) := by
  induction fields with
  | nil => rfl
  | cons f fs ih =>
    obtain ⟨hf, hfs⟩ := List.forall_mem_cons.1 h
    rw [assignAll, hf]
    dsimp only
    rw [ih hfs]

theorem Named.assign_eq_self {r : NameRegistry} {f : Field} (h : Named r f) :
    ∀ path, assign path r f = (f, r) := by
  induction h with
  | @intro f registered _ ih =>
    intro path
    obtain ⟨info, item, properties⟩ := f
    unfold assign
    dsimp only
    split
    · rename_i hkind
      have hs := struct?_of_object (f := ⟨info, item, properties⟩) (by simpa using hkind)
      have hname : r.nameOf? (fingerprintOf properties) = some info.attrTypeRef := registered _ hs
      rw [assignAll_eq_self fun g hg => ih _ hs g hg _]
      dsimp only
      rw [NameRegistry.register_of_nameOf? hname]
    · split
      · rename_i hsequence
        have hs := struct?_of_sequence (f := ⟨info, item, properties⟩) hsequence
        cases item with
        | none => rfl
        | some i =>
          obtain ⟨struct, itemOf, inside⟩ := i
          have hname : r.nameOf? (fingerprintOf inside) = some struct.attrTypeRef :=
            registered _ hs
          rw [assignItem, assignAll_eq_self fun g hg => ih _ hs g hg _]
          dsimp only
          rw [NameRegistry.register_of_nameOf? hname]
      · rfl

/-- Naming leaves a tree and the registry as they are exactly if every struct has its name. -/
theorem assign_eq_self_iff {path : String} {r : NameRegistry} {f : Field} :
    assign path r f = (f, r) ↔ Named r f := by
  refine ⟨fun h => ?_, fun h => h.assign_eq_self path⟩
  have hnamed := named_assign path r f
  rwa [h] at hnamed

/-! ## Naming twice -/

/--
Fields that can be named are left as they are by a second naming, and so is the registry, also when
other fingerprints have been registered in between.
-/
theorem nameStructs_repeated {path : String} {r : NameRegistry} {fields : List Field}
    (h : nameableAll fields = true) :
    ∃ named r', nameStructs path r fields = (.ok named, r') ∧
      nameStructs path r' named = (.ok named, r') ∧
      ∀ path' calls, nameStructs path' (r'.registerEach calls) named =
        (.ok named, r'.registerEach calls) := by
  refine ⟨_, _, nameStructs_eq_ok_iff.2 ⟨h, rfl⟩, ?_⟩
  have hagain : ∀ path' r', (assignAll path r fields).2.Within r' →
      nameStructs path' r' (assignAll path r fields).1 =
        (.ok (assignAll path r fields).1, r') := by
    intro path' r' hwithin
    refine nameStructs_eq_ok_iff.2 ⟨nameableAll_assignAll h, assignAll_eq_self fun f hf => ?_⟩
    exact ((named_assignAll path r fields f hf).mono hwithin).assign_eq_self path'
  exact ⟨hagain _ _ (.refl _), fun _ calls => hagain _ _ (NameRegistry.within_registerEach _ calls)⟩

/-! ### Structs with names from before -/

namespace Sample

/-- An object and a list of objects inside another; two of them have names from before. -/
def stale : List Field :=
  [{ name := .text "vm", type := .object, attrTypeRef := "Old"
     properties :=
      [{ name := .text "disks", type := .array, itemType := some .object
         item := some { name := .text "", type := .object, attrTypeRef := "Older"
                        properties := [.leaf { name := .text "size" }] } }] }]

/-- A registry where one of the names that are wanted is taken. -/
def taken : NameRegistry := NameRegistry.registerEach {} [("size:int64:", "Vm")]

end Sample

theorem nameStructs_repeated_sample :
    nameableAll Sample.stale = true ∧ ∃ named r',
      nameStructs "" Sample.taken Sample.stale = (.ok named, r') ∧
      r'.names = ["Vm", "VmDisks", "Vm2"] ∧ nameStructs "" r' named = (.ok named, r') := by
  obtain ⟨named, r', hfirst, hsecond, -⟩ := @nameStructs_repeated "" Sample.taken Sample.stale rfl
  refine ⟨rfl, named, r', hfirst, ?_, hsecond⟩
  have hnames : (nameStructs "" Sample.taken Sample.stale).2.names = ["Vm", "VmDisks", "Vm2"] := by
    decide +kernel
  rwa [hfirst] at hnames

end Field

end ApiModels
