/-
ApiModels.Proofs.Struct.Sharing — structs with one name have one
fingerprint, and so the same properties.

`Proper r f` collects what holds of a field after its structs are named: they
are registered, every field shows the name of its struct, and the names of
properties hold no marks. `kept_perm_iff` is what everything about shared
names rests on: two structs have the same name exactly when their properties
agree in name, type and nested name.
-/
import ApiModels.Proofs.Struct.Fingerprint
import ApiModels.Proofs.Struct.Naming

namespace ApiModels

/-- A registry is consistent, and its names hold no marks. -/
structure NameRegistry.Legible (r : NameRegistry) : Prop where
  consistent : r.Consistent
  unmarked : ∀ name ∈ r.names, Unmarked name

namespace Field

/-! ## The nested name of a property -/

/-- The name of the struct that a field nests, if it nests one. -/
def structRef? (f : Field) : Option String := f.struct?.map fun s => s.attrTypeRef

/-- The nested name of a field is the name of its struct, or empty. -/
theorem nestedRef_eq {f : Field} (hfits : f.Fits) (href : f.RefsOnObjects) :
    f.nestedRef = f.structRef?.getD "" := by
  unfold structRef? nestedRef
  by_cases hobject : f.kind = .object
  · have hitem : f.item = none := hfits.item_eq_none (by simp [hobject, AttrKind.isSequence])
    rw [struct?_of_object hobject, hitem]
    split
    · rename_i hempty
      simpa using (String.isEmpty_iff.1 hempty).symm
    · rfl
  · have hempty : f.attrTypeRef = "" := href (by simpa [isObject] using hobject)
    cases hsequence : f.kind.isSequence with
    | true =>
      rw [struct?_of_sequence hsequence, hempty]
      cases f.item <;> rfl
    | false =>
      rw [struct?_eq_none hobject hsequence, hempty, hfits.item_eq_none hsequence]
      rfl

/-- The types of fields that nest a struct. -/
def structTypes : List String := ["object", "list[object]", "set[object]"]

/-- The type of a field tells whether it nests a struct. -/
theorem struct?_isSome {f : Field} (hfits : f.Fits) :
    f.struct?.isSome = structTypes.contains f.resolvedType := by
  have hitem := hfits.item_iff
  unfold resolvedType typeMeta
  cases hkind : f.kind with
  | object => rw [struct?_of_object hkind]; rfl
  | list | set =>
    have hpresent : f.item.isSome = (f.itemType == some .object) := by
      rw [Bool.eq_iff_iff, hitem, hkind]
      simp [AttrKind.isSequence]
    rw [struct?_of_sequence (by simp [hkind, AttrKind.isSequence]), hpresent]
    cases f.itemType with
    | none => rfl
    | some t => cases t <;> rfl
  | _ =>
    rw [struct?_eq_none (by simp [hkind]) (by simp [hkind, AttrKind.isSequence])]
    cases f.itemType.getD .unknown <;> rfl

/-- Fields of which a fingerprint keeps the same nest structs of one name, or no structs. -/
theorem structRef?_eq_of_kept {f g : Field} (hf : f.Fits) (hg : g.Fits) (hf' : f.RefsOnObjects)
    (hg' : g.RefsOnObjects) (h : f.kept = g.kept) : f.structRef? = g.structRef? := by
  have htype : f.resolvedType = g.resolvedType := congrArg (fun k => k.2.1) h
  have href : f.nestedRef = g.nestedRef := congrArg (fun k => k.2.2) h
  have hsome : f.struct?.isSome = g.struct?.isSome := by
    rw [struct?_isSome hf, struct?_isSome hg, htype]
  rw [nestedRef_eq hf hf', nestedRef_eq hg hg'] at href
  unfold structRef? at href ⊢
  cases hs : f.struct? <;> cases ht : g.struct? <;> simp_all

/-! ## Named structs -/

/-- A field whose structs are registered and can be told apart by their fingerprints. -/
structure Proper (r : NameRegistry) (f : Field) : Prop where
  named : Named r f
  fits : Everywhere Fits f
  refs : Everywhere RefsOnObjects f
  clear : Everywhere (fun f => ∀ g ∈ f.properties, g.name.Unmarked) f

theorem Proper.mono {r r' : NameRegistry} (hw : r.Within r') {f : Field} (h : Proper r f) :
    Proper r' f :=
  ⟨h.named.mono hw, h.fits, h.refs, h.clear⟩

/-- A struct that is registered, with properties that can be told apart. -/
structure ProperStruct (r : NameRegistry) (s : Field) : Prop where
  registered : r.nameOf? s.fingerprint = some s.attrTypeRef
  properties : ∀ g ∈ s.properties, Proper r g
  clear : ∀ g ∈ s.properties, g.name.Unmarked

theorem Proper.struct {r : NameRegistry} {f s : Field} (h : Proper r f) (hs : f.struct? = some s) :
    ProperStruct r s where
  registered := h.named.registered hs
  properties := fun g hg =>
    ⟨h.named.inside hs g hg, (h.fits.struct hs).properties g hg, (h.refs.struct hs).properties g hg,
      (h.clear.struct hs).properties g hg⟩
  clear := (h.clear.struct hs).here

theorem Proper.of_nests {r : NameRegistry} {fields : List Field} (h : ∀ f ∈ fields, Proper r f)
    {s : Field} (hs : Nests s fields) : ProperStruct r s := by
  induction hs with
  | here hf hs => exact (h _ hf).struct hs
  | inside hf ht _ ih => exact ih ((h _ hf).struct ht).properties

namespace ProperStruct

variable {r : NameRegistry} {s t : Field}

theorem mem_names (hr : r.Legible) (hs : ProperStruct r s) : s.attrTypeRef ∈ r.names :=
  hr.consistent.mem_names.2 ⟨_, hs.registered⟩

theorem legible (hr : r.Legible) (hs : ProperStruct r s) : ∀ g ∈ s.properties, g.Legible := by
  intro g hg
  refine ⟨hs.clear g hg, ?_⟩
  rw [nestedRef_eq (hs.properties g hg).fits.here (hs.properties g hg).refs.here, structRef?]
  cases hstruct : g.struct? with
  | none => exact unmarked_empty.2
  | some u => exact (hr.unmarked _ (((hs.properties g hg).struct hstruct).mem_names hr)).2

/-- Structs have the same name exactly when their properties agree in what fingerprints keep. -/
theorem kept_perm_iff (hr : r.Legible) (hs : ProperStruct r s) (ht : ProperStruct r t) :
    (s.properties.map kept).Perm (t.properties.map kept) ↔ s.attrTypeRef = t.attrTypeRef := by
  rw [← fingerprintOf_eq_iff (hs.legible hr) (ht.legible hr)]
  constructor
  · intro heq
    have hname := hs.registered
    rw [fingerprint, heq] at hname
    exact Option.some.inj (hname.symm.trans ht.registered)
  · intro heq
    exact hr.consistent.nameOf?_injective (heq ▸ hs.registered) ht.registered

end ProperStruct

/-! ## Naming makes structs proper -/

/-- What naming asks of a field: parts that fit, no names yet, no marks in what names come of. -/
structure Ready (f : Field) : Prop where
  name : f.struct?.isSome = true → f.name.Unmarked
  fits : Everywhere Fits f
  refs : Everywhere RefsOnObjects f
  clear : Everywhere (fun f => (∀ g ∈ f.properties, g.name.Unmarked) ∧ Unmarked f.refName) f

theorem keeps_withoutRef : Keeps withoutRef :=
  ⟨fun _ => rfl, fun _ => rfl, fun _ => rfl, fun _ => rfl⟩

theorem candidate_unmarked {refName path : String} (href : Unmarked refName)
    (hpath : Unmarked path) : Unmarked (candidate refName path) := by
  unfold candidate
  split
  · exact hpath
  · exact href

theorem path_unmarked {path : String} {name : Scalar} (hpath : Unmarked path)
    (hname : name.Unmarked) : Unmarked (path ++ Name.titled name.display) := by
  obtain ⟨s, rfl, hs⟩ := hname
  exact unmarked_append.2 ⟨hpath, Name.titled_unmarked hs⟩

theorem Candidate.unmarked {c path : String} {fields : List Field} (hc : Candidate c path fields)
    (hpath : Unmarked path) (hfields : ∀ f ∈ fields, f.Ready) : Unmarked c := by
  induction hc with
  | here hf hs hc =>
    have hready := hfields _ hf
    rw [hc]
    exact candidate_unmarked (hready.clear.struct hs).here.2
      (path_unmarked hpath (hready.name (by rw [hs]; rfl)))
  | inside hf hs _ ih =>
    have hready := hfields _ hf
    refine ih (path_unmarked hpath (hready.name (by rw [hs]; rfl))) fun g hg => ?_
    exact ⟨fun _ => (hready.clear.struct hs).here.1 g hg, (hready.fits.struct hs).properties g hg,
      (hready.refs.struct hs).properties g hg, (hready.clear.struct hs).properties g hg⟩

theorem legible_assignAll {path : String} {r : NameRegistry} {fields : List Field}
    (hr : r.Legible) (hpath : Unmarked path) (h : ∀ f ∈ fields, f.Ready) :
    (assignAll path r fields).2.Legible := by
  refine ⟨(grown_assignAll path r fields).consistent hr.consistent, ?_⟩
  intro name hname
  rcases names_assignAll path r fields name hname with hold | ⟨-, c, k, hc, hk⟩
  · exact hr.unmarked name hold
  · rw [hk]
    exact NameRegistry.numbered_unmarked (hc.unmarked hpath h) k

theorem proper_assignAll (path : String) (r : NameRegistry) {fields : List Field}
    (h : ∀ f ∈ fields, f.Ready) :
    ∀ f ∈ (assignAll path r fields).1, Proper (assignAll path r fields).2 f := by
  have heq := (restate_assignAll path r fields).symm
  have hfits := Everywhere.forall_restate_eq (fun _ _ => Fits.restate_eq keeps_withoutRef) heq
    fun f hf => (h f hf).fits
  have hrefs := refsOnObjects_assignAll path r fields (fun f hf => (h f hf).fits)
    fun f hf => (h f hf).refs
  have hclear : ∀ f ∈ (assignAll path r fields).1,
      Everywhere (fun f => ∀ g ∈ f.properties, g.name.Unmarked) f := by
    refine Everywhere.forall_restate_eq (fun f g hfg hf => ?_) heq
      fun f hf => (h f hf).clear.imp fun _ hclear => hclear.1
    intro q hq
    obtain ⟨p, hp, hpq⟩ := exists_restate_eq (properties_restate_eq hfg).symm hq
    exact keeps_withoutRef.name_eq hpq ▸ hf p hp
  exact fun f hf => ⟨named_assignAll path r fields f hf, hfits f hf, hrefs f hf, hclear f hf⟩

end Field

end ApiModels
