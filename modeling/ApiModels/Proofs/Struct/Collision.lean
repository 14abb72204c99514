/-
ApiModels.Proofs.Struct.Collision — when fingerprints tell structs apart.

Fingerprints are faithful to names that hold marks in some places exactly if
the marks are apart (`fingerprint_faithful_iff`). Where they are not, one text
can be read as different properties: a name with both marks reads as a property
and the name of the next one, a nested name with both as the end of a property
and the next one, and a mark in both kinds of names may belong to either.
-/
import ApiModels.Proofs.Struct.Fingerprint

namespace ApiModels.Field

/-! ## Structs that are told alike -/

namespace Sample

/-- A property that nests a struct of some name, or a text where there is none. -/
def part (name nested : String) : Field :=
  ⟨{ name := .text name, kind := if nested.isEmpty then .string else .object,
     attrTypeRef := nested }, none, []⟩

/-- A struct with some properties, each given by its name and the name that it nests. -/
def struct (parts : List (String × String)) : Field :=
  ⟨{ name := .text "s", kind := .object }, none, parts.map fun p => part p.1 p.2⟩

/-- One name that reads as a property and the name of another. -/
def merged : Field := struct [("by:string:|on", "")]

def separate : Field := struct [("by", ""), ("on", "")]

/-- A nested name that reads as the end of a property and another one. -/
def mergedNested : Field := struct [("a", "x|b:object:y")]

def separateNested : Field := struct [("a", "x"), ("b", "y")]

/-- A colon that belongs to the nested name, or to the name. -/
def colonBehind : Field := struct [("a", "x:object:y")]

def colonInFront : Field := struct [("a:object:x", "y")]

/-- A bar that belongs to the name of the second property, or to the nested name of the first. -/
def barInFront : Field := struct [("a", "x"), ("y|z", "w")]

def barBehind : Field := struct [("a", "x|y"), ("z", "w")]

end Sample

theorem fingerprint_merged : Sample.merged.fingerprint = Sample.separate.fingerprint := by
  decide +kernel

theorem fingerprint_mergedNested :
    Sample.mergedNested.fingerprint = Sample.separateNested.fingerprint := by
  decide +kernel

theorem fingerprint_colon : Sample.colonBehind.fingerprint = Sample.colonInFront.fingerprint := by
  decide +kernel

theorem fingerprint_bar : Sample.barInFront.fingerprint = Sample.barBehind.fingerprint := by
  decide +kernel

/-! ## Where fingerprints are faithful -/

theorem nestedRef_part (name nested : String) : (Sample.part name nested).nestedRef = nested := by
  unfold Sample.part nestedRef
  split
  · rename_i hempty
    exact (String.isEmpty_iff.1 hempty).symm
  · rfl

theorem within_struct {m : Marks} {parts : List (String × String)} {names nested : List Char}
    (hnames : names ⊆ m.inName) (hnested : nested ⊆ m.inNested)
    (hparts : ∀ p ∈ parts, marksIn p.1 ⊆ names ∧ marksIn p.2 ⊆ nested) :
    ∀ f ∈ (Sample.struct parts).properties, f.Within m := by
  refine List.forall_mem_map.2 fun p hp => ?_
  obtain ⟨hname, hnest⟩ := hparts p hp
  refine ⟨⟨p.1, rfl, List.Subset.trans hname hnames⟩, ?_⟩
  rw [nestedRef_part]
  exact List.Subset.trans hnest hnested

/--
Structs whose names hold marks in some places have one fingerprint exactly when they have the same
properties, whatever the structs, if and only if the marks are apart.
-/
theorem fingerprint_faithful_iff (m : Marks) :
    (∀ s t : Field, (∀ f ∈ s.properties, f.Within m) → (∀ f ∈ t.properties, f.Within m) →
      (s.fingerprint = t.fingerprint ↔ (s.properties.map kept).Perm (t.properties.map kept))) ↔
    m.Apart := by
  refine ⟨fun h => ?_, fun hm s t => fingerprintOf_eq_iff_of_apart hm⟩
  -- Two structs that are told alike and are not the same cannot both be made of such names.
  have hcollide : ∀ {s t : Field}, s.fingerprint = t.fingerprint →
      ¬ (s.properties.map kept).Perm (t.properties.map kept) →
      (∀ f ∈ s.properties, f.Within m) → ¬ ∀ f ∈ t.properties, f.Within m :=
    fun heq hne hs ht => hne ((h _ _ hs ht).1 heq)
  have hone : ∀ {marks : List Char} {c : Char}, c ∈ marks → [c] ⊆ marks :=
    fun h => List.cons_subset.2 ⟨h, List.nil_subset _⟩
  have hboth : ∀ {marks : List Char}, ':' ∈ marks ∧ '|' ∈ marks → [':', '|'] ⊆ marks :=
    fun h => List.cons_subset.2 ⟨h.1, hone h.2⟩
  constructor
  · intro hmarks
    exact hcollide fingerprint_merged (by decide +kernel)
      (within_struct (hboth hmarks) (List.nil_subset _) (by decide))
      (within_struct (hboth hmarks) (List.nil_subset _) (by decide))
  · intro hmarks
    exact hcollide fingerprint_mergedNested (by decide +kernel)
      (within_struct (List.nil_subset _) (hboth hmarks) (by decide))
      (within_struct (List.nil_subset _) (hboth hmarks) (by decide))
  · rintro ⟨hname, hnested⟩
    exact hcollide fingerprint_colon (by decide +kernel)
      (within_struct (hone hname) (hone hnested) (by decide))
      (within_struct (hone hname) (hone hnested) (by decide))
  · rintro ⟨hname, hnested⟩
    exact hcollide fingerprint_bar (by decide +kernel)
      (within_struct (hone hname) (hone hnested) (by decide))
      (within_struct (hone hname) (hone hnested) (by decide))

/-- A struct of one property and a struct of two have one fingerprint. -/
theorem fingerprint_collides :
    Sample.merged.fingerprint = Sample.separate.fingerprint ∧
      ¬ (Sample.merged.properties.map kept).Perm (Sample.separate.properties.map kept) :=
  ⟨fingerprint_merged, by decide +kernel⟩

end ApiModels.Field
