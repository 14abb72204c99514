/-
ApiModels.Proofs.Struct.DeepShape — structs share a name exactly when they
are the same all the way down.

`Field.deepShape` of a struct is the multiset of what its properties are:
name, type, and the deep shape of the struct inside, if there is one. A
fingerprint sees only the name of that struct. That names are enough is
`ProperStruct.deepShape_eq_iff`; `nameEach_outcome` is what makes it apply
to any run of calls that name the structs of several field lists.

Multisets cannot be nested in an inductive type, so `Shape n` is what can be
seen down to `n` levels, and a deep shape is a shape that is as deep as the
struct.
-/
import Mathlib.Data.Multiset.Defs
import ApiModels.Proofs.Struct.Sharing

namespace ApiModels

namespace Field

/-! ## Shapes -/

/-- What a struct is down to so many levels: a multiset of what its properties are. -/
def Shape : Nat → Type
  | 0 => Unit
  | n + 1 => Multiset (Scalar × String × Option (Shape n))

/-- The shape of a struct with these properties, down to so many levels. -/
def shapeTo : (n : Nat) → List Field → Shape n
  | 0, _ => ()
  | n + 1, properties => ((properties.map fun f =>
      (f.name, f.resolvedType, f.struct?.map fun s => shapeTo n s.properties) :
        List (Scalar × String × Option (Shape n))) : Multiset _)

mutual

/-- The number of levels of structs in a field. -/
def levels : Field → Nat
  | ⟨info, item, properties⟩ =>
    if info.kind == .object then levelsAll properties + 1
    else if info.kind.isSequence then levelsItem item
    else 0

/-- The number of levels of structs in an item schema. -/
def levelsItem : Option Field → Nat
  | none => 0
  | some ⟨_, _, properties⟩ => levelsAll properties + 1

/-- The greatest number of levels of structs in any of some fields. -/
def levelsAll : List Field → Nat
  | [] => 0
  | f :: fs => max (levels f) (levelsAll fs)

end

/-- A shape that is as deep as the struct that has it. -/
structure DeepShape where
  below : Nat
  shape : Shape (below + 1)

/-- What a struct is all the way down. -/
def deepShape (s : Field) : DeepShape :=
  ⟨levelsAll s.properties, shapeTo _ s.properties⟩

theorem shapeTo_eq_iff {n : Nat} {fields fields' : List Field} :
    shapeTo (n + 1) fields = shapeTo (n + 1) fields' ↔
      (fields.map fun f =>
          (f.name, f.resolvedType, f.struct?.map fun s => shapeTo n s.properties)).Perm
        (fields'.map fun f =>
          (f.name, f.resolvedType, f.struct?.map fun s => shapeTo n s.properties)) :=
  Multiset.coe_eq_coe

theorem levels_eq (f : Field) :
    levels f = (f.struct?.map fun s => levelsAll s.properties + 1).getD 0 := by
  obtain ⟨info, item, properties⟩ := f
  simp only [levels, struct?]
  split
  · rfl
  · split
    · cases item with
      | none => rfl
      | some i => cases i; rfl
    · rfl

/-- Fields have so many levels at most if what is in their structs has fewer. -/
theorem levelsAll_le_iff {fields : List Field} {n : Nat} :
    levelsAll fields ≤ n ↔
      ∀ f ∈ fields, ∀ s, f.struct? = some s → levelsAll s.properties < n := by
  induction fields with
  | nil => simp [levelsAll]
  | cons f fs ih =>
    have hfirst : levels f ≤ n ↔ ∀ s, f.struct? = some s → levelsAll s.properties < n := by
      rw [levels_eq]
      cases f.struct? with
      | none => simp
      | some s =>
        constructor
        · rintro h _ ⟨⟩
          exact h
        · exact fun h => h s rfl
    rw [levelsAll, Nat.max_le, ih, hfirst, List.forall_mem_cons]

/-! ## Names and shapes -/

namespace ProperStruct

variable {r : NameRegistry} {s t : Field}

theorem structRef?_eq_of_kept (hs : ProperStruct r s) (ht : ProperStruct r t) {g h : Field}
    (hg : g ∈ s.properties) (hh : h ∈ t.properties) (hkept : g.kept = h.kept) :
    g.structRef? = h.structRef? :=
  Field.structRef?_eq_of_kept (hs.properties g hg).fits.here (ht.properties h hh).fits.here
    (hs.properties g hg).refs.here (ht.properties h hh).refs.here hkept

/-- Structs with one name look the same down to any level. -/
theorem shapeTo_eq_of_ref (hr : r.Legible) (n : Nat) (hs : ProperStruct r s)
    (ht : ProperStruct r t) (href : s.attrTypeRef = t.attrTypeRef) :
    shapeTo n s.properties = shapeTo n t.properties := by
  induction n generalizing s t with
  | zero => rfl
  | succ n ih =>
    refine shapeTo_eq_iff.2 (Field.map_perm_of_map_perm ?_ ((kept_perm_iff hr hs ht).2 href))
    intro g hg h hh hkept
    have hname : g.name = h.name := congrArg (fun k => k.1) hkept
    have htype : g.resolvedType = h.resolvedType := congrArg (fun k => k.2.1) hkept
    have hstruct := structRef?_eq_of_kept hs ht hg hh hkept
    rw [hname, htype]
    unfold structRef? at hstruct
    cases hu : g.struct? with
    | none =>
      rw [hu, Option.map_none] at hstruct
      rw [Option.map_eq_none_iff.1 hstruct.symm]
    | some u =>
      rw [hu, Option.map_some] at hstruct
      obtain ⟨v, hv, huv⟩ := Option.map_eq_some_iff.1 hstruct.symm
      have := ih ((hs.properties g hg).struct hu) ((ht.properties h hh).struct hv) huv.symm
      rw [hv, Option.map_some, Option.map_some, this]

/-- A struct is no deeper than one of the same name. -/
theorem levels_lt_of_ref (hr : r.Legible) (n : Nat) (hs : ProperStruct r s)
    (ht : ProperStruct r t) (href : s.attrTypeRef = t.attrTypeRef)
    (hn : levelsAll t.properties < n) : levelsAll s.properties < n := by
  induction n generalizing s t with
  | zero => exact absurd hn (Nat.not_lt_zero _)
  | succ n ih =>
    refine Nat.lt_succ_of_le (levelsAll_le_iff.2 fun g hg u hu => ?_)
    obtain ⟨h, hh, hkept⟩ := List.mem_map.1
      (((kept_perm_iff hr hs ht).2 href).subset (List.mem_map_of_mem hg))
    have hstruct := structRef?_eq_of_kept hs ht hg hh hkept.symm
    obtain ⟨v, hv, huv⟩ := Option.map_eq_some_iff.1
      (hstruct.symm.trans (by rw [structRef?, hu, Option.map_some]))
    exact ih ((hs.properties g hg).struct hu) ((ht.properties h hh).struct hv) huv.symm
      (levelsAll_le_iff.1 (Nat.le_of_lt_succ hn) h hh v hv)

/-- Structs that look the same as deep as they are have one name. -/
theorem ref_eq_of_shapeTo (hr : r.Legible) (n : Nat) (hs : ProperStruct r s)
    (ht : ProperStruct r t) (hns : levelsAll s.properties < n) (hnt : levelsAll t.properties < n)
    (hshape : shapeTo n s.properties = shapeTo n t.properties) :
    s.attrTypeRef = t.attrTypeRef := by
  induction n generalizing s t with
  | zero => exact absurd hns (Nat.not_lt_zero _)
  | succ n ih =>
    refine (kept_perm_iff hr hs ht).1 (Field.map_perm_of_map_perm ?_ (shapeTo_eq_iff.1 hshape))
    intro g hg h hh heq
    simp only [Prod.mk.injEq] at heq
    obtain ⟨hname, htype, hinner⟩ := heq
    have hstruct : g.structRef? = h.structRef? := by
      unfold structRef?
      cases hu : g.struct? with
      | none =>
        rw [hu, Option.map_none] at hinner
        rw [Option.map_eq_none_iff.1 hinner.symm]
      | some u =>
        rw [hu, Option.map_some] at hinner
        obtain ⟨v, hv, huv⟩ := Option.map_eq_some_iff.1 hinner.symm
        have href := ih ((hs.properties g hg).struct hu) ((ht.properties h hh).struct hv)
          (levelsAll_le_iff.1 (Nat.le_of_lt_succ hns) g hg u hu)
          (levelsAll_le_iff.1 (Nat.le_of_lt_succ hnt) h hh v hv) huv.symm
        rw [hv, Option.map_some, Option.map_some, href]
    have href : g.nestedRef = h.nestedRef := by
      rw [nestedRef_eq (hs.properties g hg).fits.here (hs.properties g hg).refs.here,
        nestedRef_eq (ht.properties h hh).fits.here (ht.properties h hh).refs.here, hstruct]
    rw [kept, kept, hname, htype, href]

/-- Structs have one name exactly when they are the same all the way down. -/
theorem deepShape_eq_iff (hr : r.Legible) (hs : ProperStruct r s) (ht : ProperStruct r t) :
    s.attrTypeRef = t.attrTypeRef ↔ deepShape s = deepShape t := by
  constructor
  · intro href
    have hlevels : levelsAll s.properties = levelsAll t.properties :=
      Nat.le_antisymm
        (Nat.le_of_lt_succ (levels_lt_of_ref hr _ hs ht href (Nat.lt_succ_self _)))
        (Nat.le_of_lt_succ (levels_lt_of_ref hr _ ht hs href.symm (Nat.lt_succ_self _)))
    unfold deepShape
    rw [hlevels, shapeTo_eq_of_ref hr _ hs ht href]
  · intro heq
    have hlevels : levelsAll s.properties = levelsAll t.properties :=
      congrArg DeepShape.below heq
    unfold deepShape at heq
    rw [hlevels] at heq
    exact ref_eq_of_shapeTo hr _ hs ht (Nat.lt_succ_of_le (Nat.le_of_eq hlevels))
      (Nat.lt_succ_self _) (by simpa using heq)

end ProperStruct

/-! ## A shape does not depend on names -/

section

variable {e : FieldInfo → FieldInfo}

theorem resolvedType_restate (he : Keeps e) (f : Field) :
    (restate e f).resolvedType = f.resolvedType := by
  unfold resolvedType typeMeta
  rw [restate_toFieldInfo, he.kind, he.itemType, he.format]

theorem shapeTo_restate (he : Keeps e) (n : Nat) (fields : List Field) :
    shapeTo n (fields.map (restate e)) = shapeTo n fields := by
  induction n generalizing fields with
  | zero => rfl
  | succ n ih =>
    refine shapeTo_eq_iff.2 (.of_eq ?_)
    rw [List.map_map]
    refine List.map_congr_left fun f _ => ?_
    simp only [Function.comp_apply, resolvedType_restate he, restate_toFieldInfo, he.name,
      struct?_restate he, Option.map_map]
    congr 3
    funext s
    simp [ih]

theorem levelsAll_restate_lt (he : Keeps e) (n : Nat) (fields : List Field) :
    levelsAll (fields.map (restate e)) < n ↔ levelsAll fields < n := by
  induction n generalizing fields with
  | zero => simp
  | succ n ih =>
    simp only [Nat.lt_succ_iff, levelsAll_le_iff, List.forall_mem_map, struct?_restate he,
      Option.map_eq_some_iff, forall_exists_index, and_imp, forall_apply_eq_imp_iff₂,
      restate_properties, ih]

theorem deepShape_restate (he : Keeps e) (s : Field) : deepShape (restate e s) = deepShape s := by
  have hlevels : levelsAll (s.properties.map (restate e)) = levelsAll s.properties :=
    Nat.le_antisymm
      (Nat.le_of_lt_succ ((levelsAll_restate_lt he _ _).2 (Nat.lt_succ_self _)))
      (Nat.le_of_lt_succ ((levelsAll_restate_lt he _ _).1 (Nat.lt_succ_self _)))
  unfold deepShape
  rw [restate_properties, shapeTo_restate he, hlevels]

end

/-! ## Runs -/

/-- A call that names the structs of a field list; `path` is what it puts before titled names. -/
structure NamingCall where
  path : String
  fields : List Field

/-- Names the structs of several lists with one registry, up to the first that fails. -/
def nameEach (r : NameRegistry) :
    List NamingCall → Result (List (List Field)) × NameRegistry
  | [] => (.ok [], r)
  | c :: calls =>
    match nameStructs c.path r c.fields with
    | (.error e, r) => (.error e, r)
    | (.ok fields, r) =>
      match nameEach r calls with
      | (.error e, r) => (.error e, r)
      | (.ok named, r) => (.ok (fields :: named), r)

/-- A name, if it is a text, holds no marks. -/
def CleanName (name : Scalar) : Prop := ∀ s, name = .text s → Unmarked s

instance : DecidablePred CleanName
  | .text s => decidable_of_iff (Unmarked s) (by simp [CleanName])
  | .null | .bool _ | .int _ | .float _ | .date _ | .bytes _ | .pair _ _ =>
    isTrue (by simp [CleanName])

/-- A call on fields as they come from a document, with no marks in what names are made of. -/
structure NamingCall.Admissible (c : NamingCall) : Prop where
  path : Unmarked c.path
  names : ∀ f ∈ c.fields, CleanName f.name
  fits : ∀ f ∈ c.fields, Everywhere Fits f
  unnamed : ∀ f ∈ c.fields, Everywhere (fun f => f.attrTypeRef = "") f
  clean : ∀ f ∈ c.fields,
    Everywhere (fun f => (∀ g ∈ f.properties, CleanName g.name) ∧ Unmarked f.refName) f

instance : DecidablePred NamingCall.Admissible := fun c =>
  decidable_of_iff (Unmarked c.path ∧ (∀ f ∈ c.fields, CleanName f.name) ∧
      (∀ f ∈ c.fields, Everywhere Fits f) ∧
      (∀ f ∈ c.fields, Everywhere (fun f => f.attrTypeRef = "") f) ∧
      ∀ f ∈ c.fields,
        Everywhere (fun f => (∀ g ∈ f.properties, CleanName g.name) ∧ Unmarked f.refName) f)
    ⟨fun ⟨path, names, fits, unnamed, clean⟩ => ⟨path, names, fits, unnamed, clean⟩,
      fun h => ⟨h.path, h.names, h.fits, h.unnamed, h.clean⟩⟩

/-- A struct is nested in one of several lists. -/
def NestedInAny (s : Field) (lists : List (List Field)) : Prop :=
  ∃ fields ∈ lists, NestedStruct s fields

theorem CleanName.unmarked {name : Scalar} (h : CleanName name) (htext : name.isText = true) :
    name.Unmarked := by
  cases name with
  | text s => exact ⟨s, rfl, h s rfl⟩
  | _ => simp [Scalar.isText, Scalar.text?] at htext

theorem NamingCall.Admissible.ready {c : NamingCall} (h : c.Admissible)
    (hnameable : nameableAll c.fields = true) : ∀ f ∈ c.fields, f.Ready := by
  intro f hf
  have hf' := nameableAll_iff.1 hnameable f hf
  have htext := names_isText (h.fits f hf) fun s hs => nameable_of_struct hf' hs
  refine ⟨fun _ => (h.names f hf).unmarked (isText_of_nameable hf'), h.fits f hf, ?_, ?_⟩
  · exact (h.unnamed f hf).imp fun _ hnone _ => hnone
  · exact (htext.and (h.clean f hf)).imp fun g hg =>
      ⟨fun p hp => (hg.2.1 p hp).unmarked (hg.1 p hp), hg.2.2⟩

theorem nameEach_cons_eq_ok_iff {r r' : NameRegistry} {c : NamingCall} {calls : List NamingCall}
    {lists : List (List Field)} :
    nameEach r (c :: calls) = (.ok lists, r') ↔
      ∃ fields r₁ named, nameStructs c.path r c.fields = (.ok fields, r₁) ∧
        nameEach r₁ calls = (.ok named, r') ∧ lists = fields :: named := by
  rw [nameEach]
  constructor
  · intro h
    split at h
    · simp at h
    · rename_i fields r₁ hfirst
      split at h
      · simp at h
      · rename_i named r₂ hrest
        simp only [Prod.mk.injEq, Except.ok.injEq] at h
        exact ⟨fields, r₁, named, hfirst, h.2 ▸ hrest, h.1.symm⟩
  · rintro ⟨fields, r₁, named, hfirst, hrest, rfl⟩
    rw [hfirst]
    dsimp only
    rw [hrest]

/-- A run succeeds exactly if all names that it looks at are texts. -/
theorem nameEach_succeeds_iff {calls : List NamingCall} {r : NameRegistry} :
    (∃ named r', nameEach r calls = (.ok named, r')) ↔
      ∀ c ∈ calls, nameableAll c.fields = true := by
  induction calls generalizing r with
  | nil => simp [nameEach]
  | cons c calls ih =>
    rw [List.forall_mem_cons]
    constructor
    · rintro ⟨lists, r', h⟩
      obtain ⟨fields, r₁, named, hfirst, hrest, -⟩ := nameEach_cons_eq_ok_iff.1 h
      exact ⟨(nameStructs_eq_ok_iff.1 hfirst).1, ih.1 ⟨named, r', hrest⟩⟩
    · rintro ⟨hfirst, hrest⟩
      obtain ⟨named, r', hnamed⟩ := ih.2 hrest
      exact ⟨_, _, nameEach_cons_eq_ok_iff.2
        ⟨_, _, named, nameStructs_eq_ok_iff.2 ⟨hfirst, rfl⟩, hnamed, rfl⟩⟩

/-- What a run leaves: a grown registry, and the same trees with names on their structs. -/
structure Outcome (calls : List NamingCall) (r : NameRegistry) (named : List (List Field))
    (r' : NameRegistry) : Prop where
  legible : r'.Legible
  within : r.Within r'
  proper : ∀ fields ∈ named, ∀ f ∈ fields, Proper r' f
  same : named.map (List.map (restate withoutRef)) =
    calls.map fun c => c.fields.map (restate withoutRef)

theorem nameEach_outcome {calls : List NamingCall} {r r' : NameRegistry}
    {named : List (List Field)} (hr : r.Legible) (h : ∀ c ∈ calls, c.Admissible)
    (hrun : nameEach r calls = (.ok named, r')) : Outcome calls r named r' := by
  induction calls generalizing r named with
  | nil =>
    simp only [nameEach, Prod.mk.injEq, Except.ok.injEq] at hrun
    obtain ⟨rfl, rfl⟩ := hrun
    exact ⟨hr, .refl r, by simp, rfl⟩
  | cons c calls ih =>
    obtain ⟨hc, hcalls⟩ := List.forall_mem_cons.1 h
    obtain ⟨fields, r₁, rest, hfirst, hrest, rfl⟩ := nameEach_cons_eq_ok_iff.1 hrun
    obtain ⟨hnameable, hassign⟩ := nameStructs_eq_ok_iff.1 hfirst
    have hready := hc.ready hnameable
    have hlegible := legible_assignAll hr hc.path hready
    have hproper := proper_assignAll c.path r hready
    have hgrown := grown_assignAll c.path r c.fields
    have hsame := restate_assignAll c.path r c.fields
    rw [hassign] at hlegible hproper hgrown hsame
    have hrun' := ih hlegible hcalls hrest
    refine ⟨hrun'.legible, hgrown.within.trans hrun'.within, ?_, ?_⟩
    · refine List.forall_mem_cons.2 ⟨?_, hrun'.proper⟩
      exact fun f hf => (hproper f hf).mono hrun'.within
    · rw [List.map_cons, List.map_cons, hsame, hrun'.same]

theorem Outcome.struct {calls : List NamingCall} {r r' : NameRegistry}
    {named : List (List Field)} (h : Outcome calls r named r') {s : Field}
    (hs : NestedInAny s named) : ProperStruct r' s := by
  obtain ⟨fields, hfields, hs⟩ := hs
  have hproper := h.proper fields hfields
  exact Proper.of_nests hproper (hs.nests fun f hf => (hproper f hf).fits)

theorem Outcome.deepShape_eq_iff {calls : List NamingCall} {r r' : NameRegistry}
    {named : List (List Field)} (h : Outcome calls r named r') {s t : Field}
    (hs : NestedInAny s named) (ht : NestedInAny t named) :
    s.attrTypeRef = t.attrTypeRef ↔ deepShape s = deepShape t :=
  ProperStruct.deepShape_eq_iff h.legible (h.struct hs) (h.struct ht)

theorem legible_empty : NameRegistry.Legible {} :=
  ⟨NameRegistry.consistent_empty, by simp [NameRegistry.names]⟩

/--
In a run from the empty registry structs get the same name exactly when they are the same all the
way down, whatever the order of the calls.
-/
theorem sharedName_iff_deepShape {calls : List NamingCall} (h : ∀ c ∈ calls, c.Admissible) :
    ((∃ named r, nameEach {} calls = (.ok named, r)) ↔
      ∀ c ∈ calls, nameableAll c.fields = true) ∧
    ∀ named r, nameEach {} calls = (.ok named, r) →
      named.map (List.map (restate withoutRef)) = calls.map (fun c => c.fields) ∧
      (∀ s t, NestedInAny s named → NestedInAny t named →
        (s.attrTypeRef = t.attrTypeRef ↔ deepShape s = deepShape t)) ∧
      ∀ calls', calls'.Perm calls → ∃ named' r', nameEach {} calls' = (.ok named', r') ∧
        ∀ s t s' t', NestedInAny s named → NestedInAny t named →
          NestedInAny s' named' → NestedInAny t' named' →
          restate withoutRef s = restate withoutRef s' →
          restate withoutRef t = restate withoutRef t' →
          (s.attrTypeRef = t.attrTypeRef ↔ s'.attrTypeRef = t'.attrTypeRef) := by
  refine ⟨nameEach_succeeds_iff, ?_⟩
  intro named r hrun
  have hout := nameEach_outcome legible_empty h hrun
  refine ⟨?_, fun s t hs ht => hout.deepShape_eq_iff hs ht, ?_⟩
  · rw [hout.same]
    refine List.map_congr_left fun c hc => ?_
    refine (List.map_congr_left fun f hf => ?_).trans (List.map_id' c.fields)
    refine restate_eq_self (((h c hc).unnamed f hf).imp fun g hg => ?_)
    rw [withoutRef, ← hg]
  · intro calls' hperm
    have hnameable := nameEach_succeeds_iff.1 ⟨named, r, hrun⟩
    obtain ⟨named', r', hrun'⟩ := nameEach_succeeds_iff.2 fun c hc => hnameable c (hperm.subset hc)
    have hout' := nameEach_outcome legible_empty (fun c hc => h c (hperm.subset hc)) hrun'
    refine ⟨named', r', hrun', ?_⟩
    intro s t s' t' hs ht hs' ht' hss htt
    have hsame : ∀ {u v : Field}, restate withoutRef u = restate withoutRef v →
        deepShape u = deepShape v := by
      intro u v huv
      rw [← deepShape_restate keeps_withoutRef u, huv, deepShape_restate keeps_withoutRef]
    rw [hout.deepShape_eq_iff hs ht, hout'.deepShape_eq_iff hs' ht', hsame hss, hsame htt]

/-- An object with one property, a text. -/
def ownerField (property : String) : Field :=
  { name := .text "owner", type := .object, properties := [.leaf { name := .text property }] }

/-- Two lists that nest the same struct, once as an object and once as items, and another one. -/
def ownerCalls : List NamingCall :=
  [⟨"Vm", [ownerField "name"]⟩,
   ⟨"Disk", [{ name := .text "owners", type := .array, itemType := some .object
               item := some { ownerField "name" with name := .text "" } },
             ownerField "title"]⟩]

theorem sharedName_owner :
    ∃ named r, nameEach {} ownerCalls = (.ok named, r) ∧
      ∀ s t, NestedInAny s named → NestedInAny t named →
        (s.attrTypeRef = t.attrTypeRef ↔ deepShape s = deepShape t) := by
  obtain ⟨hsucceeds, hshared⟩ := @sharedName_iff_deepShape ownerCalls (by decide)
  obtain ⟨named, r, hrun⟩ := hsucceeds.2 (by decide)
  exact ⟨named, r, hrun, (hshared named r hrun).2.1⟩

end Field

end ApiModels
