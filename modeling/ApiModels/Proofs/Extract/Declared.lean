/-
ApiModels.Proofs.Extract.Declared — the property that counts for a name.

A node may declare several properties of one name: itself, and by the parts
that it is composed of. The first of them counts, and hides the others. The
names of the properties that are collected for a node are all apart
(`Schema.properties_apart`), so `Document.property?` is the one that a field
of that name is made of (`fieldsOf_property`).
-/
import ApiModels.Proofs.Extract.Walk

namespace ApiModels

/-! ## Keys that are apart -/

theorem Binary64.same_self {x : Binary64} (hx : x ≠ .nan) : x.same x = true := by
  cases x with
  | finite s m e => cases e <;> simp [Binary64.same, Binary64.toRatio?]
  | infinite s => simp [Binary64.same]
  | nan => exact absurd rfl hx

theorem Date.same_self (d : Date) : d.same d = true := by
  unfold Date.same Date.comparable
  cases d.clock <;> simp

namespace Scalar

theorem sameNumber_self (n : Int ⊕ Binary64) : sameNumber n n = true := by
  cases n with
  | inl n => simp [sameNumber]
  | inr x =>
    by_cases hx : x = .nan
    · simp [sameNumber, hx]
    · simp [sameNumber, Binary64.same_self hx]

/-- Every key finds itself. -/
theorem same_self (a : Scalar) : a.same a = true := by
  induction a with
  | null => rfl
  | bool b => cases b <;> rfl
  | int n => exact sameNumber_self (.inl n)
  | float x => exact sameNumber_self (.inr x)
  | text s => simp
  | date d => exact Date.same_self d
  | bytes bs => simp [same]
  | pair a b iha ihb => simp [same, iha, ihb]

end Scalar

/-- Members with keys of which no later one finds an earlier one. -/
def Members.Apart (members : Members) : Prop :=
  members.Pairwise fun m m' => m.1.same m'.1 = false

theorem Members.Apart.lookup_eq {members : Members} (h : members.Apart) {name : Scalar} {v : Value}
    (hmem : (name, v) ∈ members) : members.lookup name = some v := by
  induction members with
  | nil => cases hmem
  | cons m rest ih =>
    obtain ⟨hfirst, hrest⟩ := List.pairwise_cons.1 h
    unfold Members.lookup
    rcases List.mem_cons.1 hmem with rfl | hmem
    · simp [Scalar.same_self]
    · rw [List.find?_cons, hfirst _ hmem]
      exact ih hrest hmem

theorem Members.Apart.nodup {members : Members} (h : members.Apart) :
    (members.map Prod.fst).Nodup := by
  refine List.pairwise_map.2 (h.imp fun {m m'} hsame hname => ?_)
  rw [hname, Scalar.same_self] at hsame
  cases hsame

namespace Schema

theorem addProperties_apart {new : Members} :
    ∀ {known : Members}, known.Apart → (addProperties known new).Apart := by
  induction new with
  | nil => exact id
  | cons m rest ih =>
    intro known h
    unfold addProperties
    split
    · exact ih h
    · rename_i hnew
      refine ih (List.pairwise_append.2 ⟨h, List.pairwise_singleton _ _, fun a ha b hb => ?_⟩)
      rw [List.mem_singleton.1 hb]
      by_contra hsame
      refine hnew ?_
      rw [Members.lookup, Option.isSome_map, List.find?_isSome]
      exact ⟨a, ha, by simpa using hsame⟩

theorem addParts_apart {d : Document} {parts : List Value} :
    ∀ {known : Members} {required : List Scalar} {collected : Members × List Scalar},
      known.Apart → addParts d parts known required = .ok collected → collected.1.Apart := by
  induction parts with
  | nil =>
    intro known required collected hknown h
    cases h
    exact hknown
  | cons part rest ih =>
    intro known required collected hknown h
    rw [addParts, Result.bind_eq_ok] at h
    obtain ⟨⟨found, n⟩, -, h⟩ := h
    cases found with
    | none => exact ih hknown h
    | some schema =>
      simp only [Result.bind_eq_ok] at h
      obtain ⟨inherited, -, names, -, h⟩ := h
      exact ih (addProperties_apart hknown) h

/-- The properties of a node have names that are all apart. -/
theorem properties_apart {d : Document} {schema : Members} {collected : Members × List Scalar}
    (h : properties d schema = .ok collected) : collected.1.Apart := by
  simp only [properties, Result.bind_eq_ok] at h
  obtain ⟨own, -, required, -, parts, -, h⟩ := h
  exact addParts_apart (addProperties_apart .nil) h

end Schema

/-! ## The property of a name -/

namespace Document

/-- The property that counts among those that a node declares under a name, itself or by a part. -/
def property? (d : Document) (node : Value) (name : Scalar) : Option Value :=
  (d.schemaAt? node).bind fun schema =>
    (Schema.properties d schema).toOption.bind fun collected => collected.1.lookup name

theorem property?_of_mem {d : Document} {node inner : Value} {schema : Members} {n : String}
    {collected : Members × List Scalar} {name : Scalar}
    (hresolve : d.resolve node = .ok ⟨some schema, n⟩)
    (hcollected : Schema.properties d schema = .ok collected) (hmem : (name, inner) ∈ collected.1) :
    d.property? node name = some inner := by
  rw [property?, schemaAt?_eq hresolve, Option.bind_some, hcollected]
  exact (Schema.properties_apart hcollected).lookup_eq hmem

/-- A step to the items of a node leads to what its schema states of them. -/
theorem inside?_items {d : Document} {node : Value} {schema : Members} {n : String} (name : Scalar)
    (hresolve : d.resolve node = .ok ⟨some schema, n⟩) :
    d.inside? (.items name) node = some (schema.get "items") := by
  rw [inside?, schemaAt?_eq hresolve, Option.map_some]

end Document

namespace Extractor

variable {x : Extractor} {nested : Nested} {path : Scalar} {node : Value}

/-- Each field of a node is that of the property that counts under its name. -/
theorem fieldsOf_property {skip : Bool} {fields : List Field}
    (h : x.fieldsOf nested skip path node = .ok fields) :
    ∀ f ∈ fields, ∃ inner required, x.document.property? node f.name = some inner ∧
      x.field nested (dotted path f.name) f.name required inner = .ok (some f) := by
  intro f hf
  obtain ⟨schema, n, collected, inner, hresolve, hcollected, hmem, hfield⟩ := fieldsOf_made h f hf
  exact ⟨inner, _, Document.property?_of_mem hresolve hcollected hmem, hfield⟩

end Extractor

end ApiModels
