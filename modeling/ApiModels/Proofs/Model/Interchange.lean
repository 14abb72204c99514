/-
ApiModels.Proofs.Model.Interchange — structs of one name in a run can stand
in place of one another.

No step of building gives a struct two properties of one name, so what two
structs of one name agree in, they agree in name by name. That is the names
of their properties and all that is said of the types, save whether a text
holds a time: fingerprints do not keep formats. Nor do they tell structs
apart when names hold the marks that fingerprints are written with, or when
no name can be made for a struct (`sharedName_not_interchangeable`).
-/
import ApiModels.Proofs.Model.Ascending
import ApiModels.Proofs.Model.Export
import ApiModels.Proofs.Struct.Interchange

namespace ApiModels

namespace Builder

open ApiModels.Field (DistinctTexts Everywhere Interchangeable NestedStruct ProperStruct)

variable {b : Builder}

/-! ## Properties of one name -/

/-- On no level of a model has a field two properties of one name. -/
theorem distinct_of_definition {d : Definition} {r r' : NameRegistry} {m : ResourceModel}
    (h : b.definition d r = (.ok m, r')) :
    ∀ g ∈ m.modelFields, Everywhere (fun f => DistinctTexts f.properties) g := by
  have hlisted : m.modelFields ∈ m.fieldLists := by simp [ResourceModel.fieldLists]
  exact fun g hg => (orderly_properties h _ hlisted g hg).imp fun _ => Field.Orderly.distinct

/-! ## Structs of one name -/

/--
Structs that have the same name after a run, in whatever models they are nested, have properties
of the same names, and of their types the same is said, save whether they hold a time.
-/
theorem interchangeable_of_sharedName (hnames : b.document.NamesSound)
    {registry registry' : NameRegistry} (hregistry : registry.Readable)
    {models : List ResourceModel} (h : b.buildAll registry = (.ok models, registry')) :
    ∀ m ∈ models, ∀ m' ∈ models, ∀ s t, NestedStruct s m.modelFields →
      NestedStruct t m'.modelFields → s.attrTypeRef = t.attrTypeRef →
      Interchangeable TypeMeta.Alike s t := by
  have hran := buildEach_spec hnames hregistry h
  have hstruct : ∀ m ∈ models, ∀ s, NestedStruct s m.modelFields →
      ProperStruct registry' s ∧ DistinctTexts s.properties := by
    intro m hm s hs
    have hproper := (hran.modelled m hm).proper
    have hnests := hs.nests fun f hf => (hproper f hf).fits
    obtain ⟨d, -, between, after, hd⟩ := exists_definition_of_buildEach h m hm
    exact ⟨Field.Proper.of_nests hproper hnests,
      (Everywhere.of_nests (distinct_of_definition hd) hnests).here⟩
  intro m hm m' hm' s t hs ht href
  obtain ⟨hs', -⟩ := hstruct m hm s hs
  obtain ⟨ht', hdistinct⟩ := hstruct m' hm' t ht
  refine Field.interchangeable_of_kept_perm
    ((hs'.kept_perm_iff hran.readable.toLegible ht').2 href) (fun q hq => ?_) hdistinct
  obtain ⟨n, hn, -⟩ := ht'.clear q hq
  exact Scalar.isText_iff.2 ⟨n, hn⟩

namespace Sample

/-- A property of one struct is not in the other, or not with the same type. -/
def differ (s t : Field) : Bool :=
  s.properties.any fun p => p.name.isText &&
    (t.properties.all (fun q => !q.name.same p.name) ||
      t.properties.any fun q => q.name.same p.name && decide (p.typeMeta ≠ q.typeMeta))

theorem not_interchangeable_of_differ {s t : Field} (h : differ s t = true) :
    ¬ Interchangeable (· = ·) s t := by
  intro hst
  obtain ⟨p, hp, hdiffer⟩ := List.any_eq_true.1 h
  obtain ⟨htext, hdiffer⟩ := Bool.and_eq_true_iff.1 hdiffer
  obtain ⟨n, hn⟩ := Scalar.isText_iff.1 htext
  rcases Bool.or_eq_true_iff.1 hdiffer with hmissing | hother
  · have hname : p.name ∈ Field.names t.properties :=
      hst.names.mem_iff.1 (List.mem_map_of_mem hp)
    obtain ⟨q, hq, hqname⟩ := List.mem_map.1 hname
    have hsame := List.all_eq_true.1 hmissing q hq
    simp [show q.name = p.name from hqname, hn] at hsame
  · obtain ⟨q, hq, hqp⟩ := List.any_eq_true.1 hother
    obtain ⟨hsame, htype⟩ := Bool.and_eq_true_iff.1 hqp
    rw [hn, Scalar.same_text_iff] at hsame
    exact of_decide_eq_true htype (hst.types p hp q hq (hn.trans hsame.symm))

/-- Two structs are named alike and differ. -/
def sharesApart (fields fields' : List Field) : Bool :=
  (structsOf fields).any fun s => (structsOf fields').any fun t =>
    s.attrTypeRef == t.attrTypeRef && differ s t

theorem exists_of_sharesApart {fields fields' : List Field}
    (h : sharesApart fields fields' = true) :
    ∃ s t, NestedStruct s fields ∧ NestedStruct t fields' ∧ s.attrTypeRef = t.attrTypeRef ∧
      ¬ Interchangeable (· = ·) s t := by
  obtain ⟨s, hs, h⟩ := List.any_eq_true.1 h
  obtain ⟨t, ht, h⟩ := List.any_eq_true.1 h
  obtain ⟨href, hdiffer⟩ := Bool.and_eq_true_iff.1 h
  exact ⟨s, t, (nests_of_mem_structsOf hs).nestedStruct, (nests_of_mem_structsOf ht).nestedStruct,
    beq_iff_eq.1 href, not_interchangeable_of_differ hdiffer⟩

end Sample

/-- A machine says as a time when it was made, and a disk as a text when it was lost. -/
theorem interchangeable_of_sharedName_sample :
    ∃ models registry, Sample.sharing.buildAll {} = (.ok models, registry) ∧
      (∀ m ∈ models, ∀ m' ∈ models, ∀ s t, NestedStruct s m.modelFields →
        NestedStruct t m'.modelFields → s.attrTypeRef = t.attrTypeRef →
        Interchangeable TypeMeta.Alike s t) ∧
      ∃ m ∈ models, ∃ m' ∈ models, m.name ≠ m'.name ∧ ∃ s t, NestedStruct s m.modelFields ∧
        NestedStruct t m'.modelFields ∧ s.attrTypeRef = t.attrTypeRef ∧
        ¬ Interchangeable (· = ·) s t ∧ Interchangeable TypeMeta.Alike s t := by
  obtain ⟨models, registry, h, hmodels⟩ := Sample.exists_of_any (x := Sample.sharing.buildAll {})
    (p := fun models => models.any fun m => models.any fun m' => decide (m.name ≠ m'.name) &&
      Sample.sharesApart m.modelFields m'.modelFields) (by decide +kernel)
  have hempty : NameRegistry.Readable {} :=
    ⟨⟨NameRegistry.consistent_empty, by simp [NameRegistry.names]⟩, by simp [NameRegistry.names]⟩
  have halike := interchangeable_of_sharedName Sample.sharing_namesSound hempty h
  obtain ⟨m, hm, hmodels⟩ := List.any_eq_true.1 hmodels
  obtain ⟨m', hm', hmodels⟩ := List.any_eq_true.1 hmodels
  obtain ⟨hname, hshares⟩ := Bool.and_eq_true_iff.1 hmodels
  obtain ⟨s, t, hs, ht, href, hapart⟩ := Sample.exists_of_sharesApart hshares
  exact ⟨models, registry, h, halike, m, hm, m', hm', of_decide_eq_true hname, s, t, hs, ht, href,
    hapart, halike m hm m' hm' s t hs ht href⟩

/-! ## Structs of one name that differ

Each of three small documents has a machine that is returned with two structs of one name. In the
first they differ in a format, in the second a name holds marks, in the third one of the names has
nothing but an underscore.
-/

/-- Structs of one name in a run have other properties, or types of which not all is the same. -/
def SharesApart (b : Builder) : Prop :=
  ∃ models registry, b.buildAll {} = (.ok models, registry) ∧ ∃ m ∈ models, ∃ s t,
    NestedStruct s m.modelFields ∧ NestedStruct t m.modelFields ∧
    s.attrTypeRef = t.attrTypeRef ∧ ¬ Interchangeable (· = ·) s t

namespace Sample

theorem sharesApart_of_any {b : Builder}
    (h : (b.buildAll {}).1.toOption.any
      (fun models => models.any fun m => sharesApart m.modelFields m.modelFields) = true) :
    SharesApart b := by
  obtain ⟨models, registry, hrun, hmodels⟩ := exists_of_any h
  obtain ⟨m, hm, hshares⟩ := List.any_eq_true.1 hmodels
  exact ⟨models, registry, hrun, m, hm, exists_of_sharesApart hshares⟩

/-- A machine that is returned with some properties. -/
def returning (root : Members) (properties : List (String × Value)) : Builder :=
  { builder with
    extractor :=
      { document :=
          { root
            operations := [returned "vm_retrieve" "/vms/1/" properties] } } }

/-- An object with some texts as properties. -/
def textsNode (names : List String) : Value :=
  objectNode (names.map fun name => (name, textNode))

def timedBuilder : Builder :=
  returning [] [("made", objectNode [("at", timeNode)]), ("seen", textsNode ["at"])]

def markedBuilder : Builder :=
  returning [] [("made", textsNode ["by:string:|on"]), ("seen", textsNode ["by", "on"])]

def namelessBuilder : Builder :=
  returning
    [(.text "old", .record [("Place", textsNode ["city"])]),
     (.text "new", .record [("Place", textsNode ["town"])])]
    [("_", textsNode ["city"]), ("from", .record [("$ref", .text "#/old/Place")]),
     ("to", .record [("$ref", .text "#/new/Place")])]

end Sample

/--
Structs of one name are not always interchangeable: formats are not kept in fingerprints, marks in
names blur them, and a struct without a name is given one only when it is collected.
-/
theorem sharedName_not_interchangeable :
    SharesApart Sample.timedBuilder ∧ SharesApart Sample.markedBuilder ∧
      SharesApart Sample.namelessBuilder :=
  ⟨Sample.sharesApart_of_any (by decide +kernel), Sample.sharesApart_of_any (by decide +kernel),
    Sample.sharesApart_of_any (by decide +kernel)⟩

end Builder

end ApiModels
