/-
ApiModels.Proofs.Struct.Naming — what naming the structs of a field tree
does to the tree and to the registry.

`Field.struct?` is the struct that a field nests: itself, if it is an
object, or the schema of its items. The facts follow the three functions
that name structs, one mutual induction each:

* the registry only grows, and stays consistent (`grown_assignAll`);
* afterwards every struct has the name that is registered for its
  fingerprint (`named_assignAll`), and names are all that has changed in
  the tree (`restate_assignAll`);
* a name that is new belongs to a struct of the tree and is a numbered form
  of a candidate (`names_assignAll`);
* naming the same tree again, with any registry that the first one has grown
  to, gives the same names and adds nothing (`assignAll_again`).

Naming succeeds exactly if the names that it looks at are texts
(`nameStructs_eq_ok_iff`), and in a tree whose parts fit these are all
(`names_isText`).
-/
import ApiModels.Proofs.Struct.Registry
import ApiModels.Proofs.Field.Tree
import ApiModels.Struct.Assign

namespace ApiModels

namespace NameRegistry

/-- A registry has grown to another one, which is consistent if it is. -/
structure Grown (r r' : NameRegistry) : Prop where
  within : r.Within r'
  consistent : r.Consistent → r'.Consistent

namespace Grown

theorem refl (r : NameRegistry) : r.Grown r := ⟨.refl r, id⟩

theorem trans {r r' r'' : NameRegistry} (h : r.Grown r') (h' : r'.Grown r'') : r.Grown r'' :=
  ⟨h.within.trans h'.within, h'.consistent ∘ h.consistent⟩

theorem register (r : NameRegistry) (fingerprint candidate : String) :
    r.Grown (r.register fingerprint candidate).2 :=
  ⟨within_register r fingerprint candidate, fun h => register_consistent h fingerprint candidate⟩

end Grown

end NameRegistry

namespace Field

open NameRegistry (Grown)

/-! ## The struct that a field nests -/

/-- The struct that a field nests: itself, if it is an object, or the schema of its items. -/
def struct? (f : Field) : Option Field :=
  if f.kind == .object then some f else if f.kind.isSequence then f.item else none

theorem struct?_of_object {f : Field} (h : f.kind = .object) : f.struct? = some f := by
  simp [struct?, h]

theorem struct?_of_sequence {f : Field} (h : f.kind.isSequence = true) : f.struct? = f.item := by
  have hne : f.kind ≠ .object := by
    intro heq
    simp [heq, AttrKind.isSequence] at h
  simp [struct?, hne, h]

theorem struct?_eq_none {f : Field} (h : f.kind ≠ .object) (h' : f.kind.isSequence = false) :
    f.struct? = none := by
  simp [struct?, h, h']

theorem struct?_restate {e : FieldInfo → FieldInfo} (he : Keeps e) (f : Field) :
    (restate e f).struct? = f.struct?.map (restate e) := by
  unfold struct?
  rw [restate_toFieldInfo, he.kind, restate_item]
  split
  · rfl
  · split <;> rfl

/-- A struct stands in a list as that of a field, or inside the struct of a field. -/
inductive Nests (s : Field) : List Field → Prop where
  | here {f : Field} {fields} (hf : f ∈ fields) (hs : f.struct? = some s) : Nests s fields
  | inside {f t : Field} {fields} (hf : f ∈ fields) (ht : f.struct? = some t)
      (hs : Nests s t.properties) : Nests s fields

theorem Nests.subset {s : Field} {fields fields' : List Field} (hsub : fields ⊆ fields')
    (h : Nests s fields) : Nests s fields' := by
  cases h with
  | here hf hs => exact .here (hsub hf) hs
  | inside hf ht hs => exact .inside (hsub hf) ht hs

theorem Everywhere.struct {P : Field → Prop} {f s : Field} (h : Everywhere P f)
    (hs : f.struct? = some s) : Everywhere P s := by
  unfold struct? at hs
  split at hs
  · exact Option.some.inj hs ▸ h
  · split at hs
    · exact h.item hs
    · cases hs

theorem Everywhere.of_nests {P : Field → Prop} {fields : List Field}
    (h : ∀ f ∈ fields, Everywhere P f) {s : Field} (hs : Nests s fields) : Everywhere P s := by
  induction hs with
  | here hf hs => exact (h _ hf).struct hs
  | inside hf ht _ ih => exact ih ((h _ hf).struct ht).properties

/-- Where all parts fit, the structs on any level are the ones that naming comes to. -/
theorem NestedStruct.nests {fields : List Field} (h : ∀ f ∈ fields, Everywhere Fits f) {s : Field}
    (hs : NestedStruct s fields) : Nests s fields := by
  have below : ∀ {steps : List Step} {d : Field} {fs : List Field}, OccursAt d steps fs →
      (∀ f ∈ fs, Everywhere Fits f) → d.struct? = some s → Nests s fs := by
    intro steps d fs hd
    induction hd with
    | here hd => intro _ hds; exact .here hd hds
    | object hf hd ih =>
      intro hfits hds
      have hne := (hfits _ hf).here.properties_object (by
        intro hnil
        rw [hnil] at hd
        cases hd <;> contradiction)
      exact .inside hf (struct?_of_object hne) (ih (hfits _ hf).properties hds)
    | items hf hitem _ ih =>
      intro hfits hds
      have hstruct := (struct?_of_sequence ((hfits _ hf).here.sequence hitem)).trans hitem
      exact .inside hf hstruct (ih ((hfits _ hf).item hitem).properties hds)
  rcases hs with ⟨steps, hd, hobject⟩ | ⟨steps, f, hf, hitem⟩
  · exact below hd h (struct?_of_object (by simpa [isObject] using hobject))
  · have hfits := (Everywhere.of_occursAt h hf).here
    exact below hf h ((struct?_of_sequence (hfits.sequence hitem)).trans hitem)

/-- What stands below the struct of a field stands below the field. -/
theorem OccursAt.inside {d f t : Field} {steps : List Step} {fields : List Field} (hf : f ∈ fields)
    (ht : f.struct? = some t) (hd : OccursAt d steps t.properties) :
    ∃ steps', OccursAt d steps' fields := by
  unfold struct? at ht
  split at ht
  · cases ht
    exact ⟨_, .object hf hd⟩
  · split at ht
    · exact ⟨_, .items hf ht hd⟩
    · cases ht

theorem Nests.nestedStruct {s : Field} {fields : List Field} (h : Nests s fields) :
    NestedStruct s fields := by
  induction h with
  | @here f fields hf hs =>
    unfold struct? at hs
    split at hs
    · rename_i hobject
      cases hs
      exact .inl ⟨[], .here hf, hobject⟩
    · split at hs
      · exact .inr ⟨[], f, .here hf, hs⟩
      · cases hs
  | inside hf ht _ ih =>
    rcases ih with ⟨steps, hd, hobject⟩ | ⟨steps, g, hg, hitem⟩
    · obtain ⟨steps', hd'⟩ := hd.inside hf ht
      exact .inl ⟨steps', hd', hobject⟩
    · obtain ⟨steps', hg'⟩ := hg.inside hf ht
      exact .inr ⟨steps', g, hg', hitem⟩

/-- Every struct of a field has the name that is registered for its fingerprint. -/
inductive Named (r : NameRegistry) : Field → Prop where
  | intro {f : Field}
      (registered : ∀ s, f.struct? = some s → r.nameOf? s.fingerprint = some s.attrTypeRef)
      (inside : ∀ s, f.struct? = some s → ∀ g ∈ s.properties, Named r g) : Named r f

namespace Named

variable {r r' : NameRegistry} {f s : Field}

theorem registered (h : Named r f) (hs : f.struct? = some s) :
    r.nameOf? s.fingerprint = some s.attrTypeRef := by
  cases h with
  | intro h _ => exact h s hs

theorem inside (h : Named r f) (hs : f.struct? = some s) : ∀ g ∈ s.properties, Named r g := by
  cases h with
  | intro _ h => exact h s hs

theorem mono (hw : r.Within r') (h : Named r f) : Named r' f := by
  induction h with
  | intro registered _ ih => exact .intro (fun s hs => hw.nameOf? (registered s hs)) ih

/-- Every struct nested in named fields is registered under its name, and so is what is in it. -/
theorem of_nests {fields : List Field} (h : ∀ f ∈ fields, Named r f) (hs : Nests s fields) :
    r.nameOf? s.fingerprint = some s.attrTypeRef ∧ ∀ g ∈ s.properties, Named r g := by
  induction hs with
  | here hf hs => exact ⟨(h _ hf).registered hs, (h _ hf).inside hs⟩
  | inside hf ht _ ih => exact ih ((h _ hf).inside ht)

end Named

/-! ## The registry grows -/

mutual

theorem grown_assign (path : String) (r : NameRegistry) :
    ∀ f : Field, r.Grown (assign path r f).2
  | ⟨info, item, properties⟩ => by
    simp only [assign]
    split
    · exact (grown_assignAll _ r properties).trans (.register _ _ _)
    · split
      · exact grown_assignItem _ r item
      · exact .refl r

theorem grown_assignItem (path : String) (r : NameRegistry) :
    ∀ item : Option Field, r.Grown (assignItem path r item).2
  | none => .refl r
  | some ⟨_, _, properties⟩ => by
    simp only [assignItem]
    exact (grown_assignAll _ r properties).trans (.register _ _ _)

theorem grown_assignAll (path : String) (r : NameRegistry) :
    ∀ fields : List Field, r.Grown (assignAll path r fields).2
  | [] => .refl r
  | f :: fs => by
    simp only [assignAll]
    exact (grown_assign path r f).trans (grown_assignAll path _ fs)

end

/-! ## Every struct is registered under its name -/

mutual

theorem named_assign (path : String) (r : NameRegistry) :
    ∀ f : Field, Named (assign path r f).2 (assign path r f).1
  | ⟨info, item, properties⟩ => by
    simp only [assign]
    split
    · rename_i hkind
      have hinner := named_assignAll (path ++ Name.titled info.name.display) r properties
      have hgrown := grown_assignAll (path ++ Name.titled info.name.display) r properties
      refine .intro ?_ ?_ <;> intro s hs <;>
        rw [struct?_of_object (by simpa using hkind)] at hs <;> cases hs
      · exact NameRegistry.nameOf?_register _ _ _
      · intro g hg
        exact (hinner g hg).mono (NameRegistry.within_register _ _ _)
    · rename_i hkind
      split
      · rename_i hsequence
        have hitem := named_assignItem (path ++ Name.titled info.name.display) r item
        refine .intro ?_ ?_ <;> intro s hs <;> rw [struct?_of_sequence hsequence] at hs
        · exact (hitem s hs).1
        · exact (hitem s hs).2
      · rename_i hsequence
        have hnone : (⟨info, item, properties⟩ : Field).struct? = none :=
          struct?_eq_none (by simpa using hkind) (by simpa using hsequence)
        refine .intro ?_ ?_ <;> intro s hs <;> rw [hnone] at hs <;> cases hs

theorem named_assignItem (path : String) (r : NameRegistry) :
    ∀ (item : Option Field) (s : Field), (assignItem path r item).1 = some s →
      (assignItem path r item).2.nameOf? s.fingerprint = some s.attrTypeRef ∧
        ∀ g ∈ s.properties, Named (assignItem path r item).2 g
  | none, _, hs => by simp [assignItem] at hs
  | some ⟨info, item, properties⟩, s, hs => by
    simp only [assignItem, Option.some.injEq] at hs
    subst hs
    have hinner := named_assignAll path r properties
    simp only [assignItem]
    refine ⟨NameRegistry.nameOf?_register _ _ _, ?_⟩
    intro g hg
    exact (hinner g hg).mono (NameRegistry.within_register _ _ _)

theorem named_assignAll (path : String) (r : NameRegistry) :
    ∀ fields : List Field,
      ∀ f ∈ (assignAll path r fields).1, Named (assignAll path r fields).2 f
  | [], f, hf => by simp [assignAll] at hf
  | g :: gs, f, hf => by
    simp only [assignAll] at hf ⊢
    rcases List.mem_cons.1 hf with rfl | hf
    · exact (named_assign path r g).mono (grown_assignAll path _ gs).within
    · exact named_assignAll path _ gs f hf

end

/-! ## Names are all that changes in the tree -/

/-- What a field says apart from the name of its struct. -/
def withoutRef (info : FieldInfo) : FieldInfo := { info with attrTypeRef := "" }

mutual

theorem restate_assign (path : String) (r : NameRegistry) :
    ∀ f : Field, restate withoutRef (assign path r f).1 = restate withoutRef f
  | ⟨info, item, properties⟩ => by
    simp only [assign]
    split
    · exact restate_congr rfl rfl (restate_assignAll _ r properties)
    · split
      · exact restate_congr rfl (restate_assignItem _ r item) rfl
      · rfl

theorem restate_assignItem (path : String) (r : NameRegistry) :
    ∀ item : Option Field,
      (assignItem path r item).1.map (restate withoutRef) = item.map (restate withoutRef)
  | none => rfl
  | some ⟨_, _, properties⟩ => by
    simp only [assignItem, Option.map_some]
    exact congrArg some (restate_congr rfl rfl (restate_assignAll path r properties))

theorem restate_assignAll (path : String) (r : NameRegistry) :
    ∀ fields : List Field,
      (assignAll path r fields).1.map (restate withoutRef) = fields.map (restate withoutRef)
  | [] => rfl
  | f :: fs => by
    simp only [assignAll, List.map_cons]
    rw [restate_assign path r f, restate_assignAll path _ fs]

end

/-- Only an object has a name for its struct. -/
def RefsOnObjects (f : Field) : Prop := f.isObject = false → f.attrTypeRef = ""

mutual

theorem refsOnObjects_assign (path : String) (r : NameRegistry) :
    ∀ f : Field, Everywhere Fits f → Everywhere RefsOnObjects f →
      Everywhere RefsOnObjects (assign path r f).1
  | ⟨info, item, properties⟩, hfits, h => by
    simp only [assign]
    split
    · rename_i hkind
      refine .intro ?_ (fun i hi => h.item hi)
        (refsOnObjects_assignAll _ r properties hfits.properties h.properties)
      intro hobject
      exact absurd hkind (by simpa [isObject] using hobject)
    · split
      · exact .intro h.here (refsOnObjects_assignItem _ r item
          (fun i hi => ⟨hfits.here.item_object i hi, hfits.item hi, h.item hi⟩)) h.properties
      · exact h

theorem refsOnObjects_assignItem (path : String) (r : NameRegistry) :
    ∀ item : Option Field,
      (∀ i, item = some i → i.kind = .object ∧ Everywhere Fits i ∧ Everywhere RefsOnObjects i) →
      ∀ i, (assignItem path r item).1 = some i → Everywhere RefsOnObjects i
  | none, _, i, hi => by simp [assignItem] at hi
  | some ⟨info, item, properties⟩, h, i, hi => by
    obtain ⟨hkind, hfits, hrefs⟩ := h _ rfl
    simp only [assignItem, Option.some.injEq] at hi
    subst hi
    refine .intro ?_ (fun i hi => hrefs.item hi)
      (refsOnObjects_assignAll path r properties hfits.properties hrefs.properties)
    intro hobject
    exact absurd hkind (by simpa [isObject] using hobject)

theorem refsOnObjects_assignAll (path : String) (r : NameRegistry) :
    ∀ fields : List Field, (∀ f ∈ fields, Everywhere Fits f) →
      (∀ f ∈ fields, Everywhere RefsOnObjects f) →
      ∀ f ∈ (assignAll path r fields).1, Everywhere RefsOnObjects f
  | [], _, _, f, hf => by simp [assignAll] at hf
  | g :: gs, hfits, h, f, hf => by
    obtain ⟨hgfits, hgsfits⟩ := List.forall_mem_cons.1 hfits
    obtain ⟨hg, hgs⟩ := List.forall_mem_cons.1 h
    simp only [assignAll] at hf
    rcases List.mem_cons.1 hf with rfl | hf
    · exact refsOnObjects_assign path r g hgfits hg
    · exact refsOnObjects_assignAll path _ gs hgsfits hgs f hf

end

/-! ## Where new names come from -/

/-- A text is the candidate for the name of a struct that some fields nest. -/
inductive Candidate (c : String) : String → List Field → Prop where
  | here {f s : Field} {path fields} (hf : f ∈ fields) (hs : f.struct? = some s)
      (hc : c = candidate s.refName (path ++ Name.titled f.name.display)) :
      Candidate c path fields
  | inside {f s : Field} {path fields} (hf : f ∈ fields) (hs : f.struct? = some s)
      (hc : Candidate c (path ++ Name.titled f.name.display) s.properties) :
      Candidate c path fields

theorem Candidate.subset {c path : String} {fields fields' : List Field} (hsub : fields ⊆ fields')
    (h : Candidate c path fields) : Candidate c path fields' := by
  cases h with
  | here hf hs hc => exact .here (hsub hf) hs hc
  | inside hf hs hc => exact .inside (hsub hf) hs hc

/-- A name was there, or a struct that was named has it and it was made from a candidate. -/
def Accounted (r : NameRegistry) (path : String) (fields named : List Field) (name : String) :
    Prop :=
  name ∈ r.names ∨
    (∃ s, Nests s named ∧ s.attrTypeRef = name) ∧
      ∃ c k, Candidate c path fields ∧ name = NameRegistry.numbered c k

/-- What is accounted for inside the structs of fields is accounted for in the fields. -/
theorem Accounted.inside {r : NameRegistry} {path : String} {f f' s s' : Field} {name : String}
    (hs : f.struct? = some s) (hs' : f'.struct? = some s')
    (h : Accounted r (path ++ Name.titled f.name.display) s.properties s'.properties name) :
    Accounted r path [f] [f'] name := by
  rcases h with h | ⟨⟨t, ht, hname⟩, c, k, hc, hk⟩
  · exact .inl h
  · exact .inr ⟨⟨t, .inside List.mem_cons_self hs' ht, hname⟩, c, k,
      .inside List.mem_cons_self hs hc, hk⟩

mutual

theorem names_assign (path : String) (r : NameRegistry) :
    ∀ (f : Field), ∀ name ∈ (assign path r f).2.names,
      Accounted r path [f] [(assign path r f).1] name
  | ⟨info, item, properties⟩, name, hname => by
    simp only [assign] at hname ⊢
    split at hname
    · rename_i hkind
      have hkind : info.kind = .object := by simpa using hkind
      rw [if_pos (by simpa using hkind)]
      rcases NameRegistry.mem_names_register hname with hold | ⟨hgiven, k, hk⟩
      · exact .inside (struct?_of_object hkind) (struct?_of_object hkind)
          (names_assignAll _ r properties name hold)
      · refine .inr ⟨⟨_, .here List.mem_cons_self (struct?_of_object hkind), hgiven.symm⟩, _, k,
          ?_, hk⟩
        exact .here List.mem_cons_self (struct?_of_object hkind) rfl
    · rename_i hkind
      rw [if_neg hkind]
      split at hname
      · rename_i hsequence
        rw [if_pos hsequence]
        exact names_assignItem path r ⟨info, item, properties⟩ hsequence item rfl name hname
      · exact .inl hname

theorem names_assignItem (path : String) (r : NameRegistry) (f : Field)
    (hf : f.kind.isSequence = true) :
    ∀ item : Option Field, f.item = item →
      ∀ name ∈ (assignItem (path ++ Name.titled f.name.display) r item).2.names,
        Accounted r path [f]
          [{ f with item := (assignItem (path ++ Name.titled f.name.display) r item).1 }] name
  | none, _, name, hname => .inl hname
  | some ⟨info, item, properties⟩, hitem, name, hname => by
    simp only [assignItem] at hname ⊢
    have hs : f.struct? = _ := (struct?_of_sequence hf).trans hitem
    rcases NameRegistry.mem_names_register hname with hold | ⟨hgiven, k, hk⟩
    · exact .inside hs (struct?_of_sequence hf) (names_assignAll _ r properties name hold)
    · exact .inr ⟨⟨_, .here List.mem_cons_self (struct?_of_sequence hf), hgiven.symm⟩, _, k,
        .here List.mem_cons_self hs rfl, hk⟩

theorem names_assignAll (path : String) (r : NameRegistry) :
    ∀ (fields : List Field), ∀ name ∈ (assignAll path r fields).2.names,
      Accounted r path fields (assignAll path r fields).1 name
  | [], name, hname => .inl hname
  | f :: fs, name, hname => by
    simp only [assignAll] at hname ⊢
    rcases names_assignAll path _ fs name hname with hold | ⟨⟨s, hs, href⟩, c, k, hc, hk⟩
    · rcases names_assign path r f name hold with hold | ⟨⟨s, hs, href⟩, c, k, hc, hk⟩
      · exact .inl hold
      · exact .inr ⟨⟨s, hs.subset (by simp), href⟩, c, k, hc.subset (by simp), hk⟩
    · exact .inr ⟨⟨s, hs.subset (by simp), href⟩, c, k, hc.subset (by simp), hk⟩

end

/-! ## Naming again -/

mutual

/-- A tree that has been named is named the same way by every registry that has grown since. -/
theorem assign_again (path path' : String) (r r' : NameRegistry) :
    ∀ f : Field, (assign path r f).2.Within r' →
      assign path' r' f = ((assign path r f).1, r')
  | ⟨info, item, properties⟩, hw => by
    simp only [assign] at hw ⊢
    split at hw
    · rename_i hkind
      rw [if_pos hkind, if_pos hkind]
      have hinner := assignAll_again _ (path' ++ Name.titled info.name.display) r r' properties
        ((NameRegistry.within_register _ _ _).trans hw)
      have hname := hw.nameOf? (NameRegistry.nameOf?_register _ _ _)
      rw [hinner, NameRegistry.register_of_nameOf? hname]
    · rename_i hkind
      rw [if_neg hkind, if_neg hkind]
      split at hw
      · rename_i hsequence
        rw [if_pos hsequence, if_pos hsequence, assignItem_again _ _ r r' item hw]
      · rename_i hsequence
        rw [if_neg hsequence, if_neg hsequence]

theorem assignItem_again (path path' : String) (r r' : NameRegistry) :
    ∀ item : Option Field, (assignItem path r item).2.Within r' →
      assignItem path' r' item = ((assignItem path r item).1, r')
  | none, _ => rfl
  | some ⟨info, item, properties⟩, hw => by
    simp only [assignItem] at hw ⊢
    have hinner := assignAll_again path path' r r' properties
      ((NameRegistry.within_register _ _ _).trans hw)
    have hname := hw.nameOf? (NameRegistry.nameOf?_register _ _ _)
    rw [hinner, NameRegistry.register_of_nameOf? hname]

theorem assignAll_again (path path' : String) (r r' : NameRegistry) :
    ∀ fields : List Field, (assignAll path r fields).2.Within r' →
      assignAll path' r' fields = ((assignAll path r fields).1, r')
  | [], _ => rfl
  | f :: fs, hw => by
    simp only [assignAll] at hw ⊢
    have hfirst := assign_again path path' r r' f ((grown_assignAll path _ fs).within.trans hw)
    rw [hfirst, assignAll_again path path' _ r' fs hw]

end

/-- Every field of a named list was named with a registry that the last one has grown from. -/
theorem exists_assign_of_mem (path : String) {f : Field} :
    ∀ {fields : List Field} (r : NameRegistry), f ∈ fields →
      ∃ r₀, (assign path r₀ f).1 ∈ (assignAll path r fields).1 ∧
        (assign path r₀ f).2.Within (assignAll path r fields).2
  | g :: gs, r, hf => by
    simp only [assignAll]
    rcases List.mem_cons.1 hf with rfl | hf
    · exact ⟨r, List.mem_cons_self, (grown_assignAll path _ gs).within⟩
    · obtain ⟨r₀, hmem, hw⟩ := exists_assign_of_mem path (assign path r g).2 hf
      exact ⟨r₀, List.mem_cons_of_mem _ hmem, hw⟩

/-- Fields that were named among others are named the same way once more, and nothing is added. -/
theorem assignAll_of_subset (path : String) (r r' : NameRegistry) {fields : List Field} :
    ∀ {some : List Field}, some ⊆ fields → (assignAll path r fields).2.Within r' →
      (assignAll path r' some).1 ⊆ (assignAll path r fields).1 ∧ (assignAll path r' some).2 = r'
  | [], _, _ => ⟨List.nil_subset _, rfl⟩
  | f :: fs, hsub, hw => by
    obtain ⟨hf, hfs⟩ := List.cons_subset.1 hsub
    obtain ⟨r₀, hmem, hw₀⟩ := exists_assign_of_mem path r hf
    have hagain := assign_again path path r₀ r' f (hw₀.trans hw)
    obtain ⟨hrest, hsame⟩ := assignAll_of_subset path r r' hfs hw
    simp only [assignAll]
    rw [hagain]
    exact ⟨List.cons_subset.2 ⟨hmem, hrest⟩, hsame⟩

/-! ## Names that are texts -/

theorem nameStructs_eq_ok_iff {path : String} {r r' : NameRegistry} {fields named : List Field} :
    nameStructs path r fields = (.ok named, r') ↔
      nameableAll fields = true ∧ assignAll path r fields = (named, r') := by
  unfold nameStructs
  split
  · rename_i h
    simp [h, Prod.ext_iff]
  · rename_i h
    simp [h]

theorem nameableAll_iff {fields : List Field} :
    nameableAll fields = true ↔ ∀ f ∈ fields, nameable f = true := by
  induction fields with
  | nil => simp [nameableAll]
  | cons f fs ih => simp [nameableAll, ih]

theorem isText_of_nameable {f : Field} (h : nameable f = true) : f.name.isText = true := by
  obtain ⟨info, item, properties⟩ := f
  rw [nameable, Bool.and_eq_true] at h
  exact h.1

theorem nameable_of_struct {f s : Field} (h : nameable f = true) (hs : f.struct? = some s) :
    ∀ g ∈ s.properties, nameable g = true := by
  obtain ⟨info, item, properties⟩ := f
  rw [nameable, Bool.and_eq_true] at h
  obtain ⟨-, h⟩ := h
  unfold struct? at hs
  split at hs
  · rename_i hkind
    rw [if_pos hkind] at h
    exact Option.some.inj hs ▸ nameableAll_iff.1 h
  · rename_i hkind
    rw [if_neg hkind] at h
    split at hs
    · rename_i hsequence
      rw [if_pos hsequence] at h
      cases hs
      obtain ⟨_, _, _⟩ := s
      exact nameableAll_iff.1 h
    · cases hs

/-- Where the parts fit, the fields inside one that can be named are all named by texts. -/
theorem names_isText {f : Field} (hfits : Everywhere Fits f)
    (h : ∀ s, f.struct? = some s → ∀ g ∈ s.properties, nameable g = true) :
    Everywhere (fun f => ∀ g ∈ f.properties, g.name.isText = true) f := by
  induction hfits with
  | @intro f here hitems _ ihItem ihProperties =>
    have hproperties : ∀ g ∈ f.properties, nameable g = true := by
      intro g hg
      have hkind := here.properties_object (List.ne_nil_of_mem hg)
      exact h f (struct?_of_object hkind) g hg
    refine .intro (fun g hg => isText_of_nameable (hproperties g hg)) ?_ ?_
    · intro i hi
      refine ihItem i hi fun s hs => ?_
      rw [struct?_of_object (here.item_object i hi)] at hs
      cases hs
      exact h i ((struct?_of_sequence (here.sequence hi)).trans hi)
    · intro g hg
      exact ihProperties g hg fun s hs => nameable_of_struct (hproperties g hg) hs

end Field

end ApiModels
