/-
ApiModels.Proofs.Extract.Raised — what a greater depth adds.

`Extractor.raised` goes one level deeper. It also follows alternatives on one
more level, so it may see the type of a node that had none before. What has a
type keeps it (`schemaType_raised`), and so a property that has a field keeps
one, under the same name and with at least the same fields in it.

There is one way to lose a field. An array stays without an item schema if
its items have no known type; an array of objects is left out if its items have
no fields. So an array is lost whose items turn out, on the last level of
alternatives, to be objects without fields, and with it an array of objects
that has no other fields. `Extractor.Fades` says that a field is lost so. Where
both walks return, these fields are lost and all others stay
(`walkFrom_raised`).
-/
import ApiModels.Proofs.Extract.Composed
import ApiModels.Proofs.Extract.Declared
import ApiModels.Proofs.Extract.Levels
import ApiModels.Proofs.Extract.Paired
import ApiModels.Proofs.Field.Tree

namespace ApiModels

namespace Extractor

open ApiModels.Field (OccursAt Step)

variable {x : Extractor} {nested nested' : Nested} {path name : Scalar} {node : Value}
  {schema : Members} {required : Bool}

/-- The same extractor, for one more level. -/
def raised (x : Extractor) : Extractor := { x with maxDepth := x.maxDepth + 1 }

/-! ## Types -/

/-- A type that is known stays what it is. -/
theorem schemaType_raised {t t' : SemanticType} (h : x.schemaType schema = .ok t)
    (h' : x.raised.schemaType schema = .ok t') (hknown : t ≠ .unknown) : t' = t := by
  unfold schemaType raised at h'
  unfold schemaType at h
  by_cases hlevels : 0 ≤ x.maxDepth + 2
  · have hone : (x.maxDepth + 1 + 2).toNat = (x.maxDepth + 2).toNat + 1 := by omega
    simp only [hone] at h'
    rcases Schema.typeWithin_of_succ h' with hsame | hnone
    · exact Except.ok.inj (hsame.symm.trans h)
    · exact absurd (Except.ok.inj (h.symm.trans hnone)) hknown
  · have hnone : (x.maxDepth + 2).toNat = 0 := by omega
    rw [hnone] at h
    exact absurd (Except.ok.inj h).symm hknown

/-! ## Fields that are lost -/

/--
A field that stands below a node is lost with one more level: it is an array whose items turn out
to be objects, and these have no fields, or it is an array of objects whose fields are all lost.
-/
inductive Fades (x : Extractor) : Int → Scalar → Value → List Step → Field → Prop where
  | untyped {depth path node f inner items schema n}
      (hproperty : x.document.property? node f.name = some inner)
      (harray : f.kind.isSequence = true)
      (hitems : x.document.inside? (.items f.name) inner = some items)
      (hresolve : x.document.resolve items = .ok ⟨some schema, n⟩)
      (htype : x.schemaType schema = .ok .unknown)
      (hraised : x.raised.schemaType schema = .ok .object)
      (hnone : x.raised.walkFrom false (depth + 1) (dotted path f.name) items = .ok []) :
      Fades x depth path node [] f
  | emptied {depth path node f inner items item}
      (hproperty : x.document.property? node f.name = some inner)
      (hitems : x.document.inside? (.items f.name) inner = some items)
      (hitem : f.item = some item)
      (hnone : x.raised.walkFrom false (depth + 1) (dotted path f.name) items = .ok [])
      (h : ∀ g ∈ item.properties, Fades x (depth + 1) (dotted path f.name) items [] g) :
      Fades x depth path node [] f
  | inside {depth path node inner v step steps f}
      (hproperty : x.document.property? node step.name = some inner)
      (hstep : x.document.inside? step inner = some v)
      (h : Fades x (depth + 1) (dotted path step.name) v steps f) :
      Fades x depth path node (step :: steps) f

/-! ## One field -/

/-- The items of a node are objects without fields. -/
def BareItems (x : Extractor) (nested : Nested) (path : Scalar) (node : Value) : Prop :=
  ∃ items schema n, (∀ name, x.document.inside? (.items name) node = some items) ∧
    x.document.resolve items = .ok ⟨some schema, n⟩ ∧ x.schemaType schema = .ok .object ∧
    nested path items = .ok []

/-- What becomes of the field of a property, when it is extracted with one more level. -/
inductive Outcome (x : Extractor) (nested nested' : Nested) (path : Scalar) (node : Value) :
    Field → Option Field → Prop where
  | kept {info g} (hname : g.name = info.name)
      (harray : info.kind.isSequence = true → ¬ x.raised.BareItems nested' path node) :
      Outcome x nested nested' path node (.leaf info) (some g)
  | untyped {info items schema n} (harray : info.kind.isSequence = true)
      (hitems : ∀ name, x.document.inside? (.items name) node = some items)
      (hresolve : x.document.resolve items = .ok ⟨some schema, n⟩)
      (htype : x.schemaType schema = .ok .unknown)
      (hraised : x.raised.schemaType schema = .ok .object) (hnone : nested' path items = .ok []) :
      Outcome x nested nested' path node (.leaf info) none
  | emptied {info item items}
      (hitems : ∀ name, x.document.inside? (.items name) node = some items)
      (hwalk : nested path items = .ok item.properties) (hnone : nested' path items = .ok []) :
      Outcome x nested nested' path node { toFieldInfo := info, item := some item } none
  | items {info info' item item' items} (hname : info'.name = info.name)
      (hitems : ∀ name, x.document.inside? (.items name) node = some items)
      (hwalk : nested path items = .ok item.properties)
      (hwalk' : nested' path items = .ok item'.properties) (hfields : item'.properties ≠ []) :
      Outcome x nested nested' path node { toFieldInfo := info, item := some item }
        (some { toFieldInfo := info', item := some item' })
  | object {info info' fields fields'} (hname : info'.name = info.name)
      (hkind : info.kind.isSequence = false)
      (hwalk : nested path node = .ok fields) (hwalk' : nested' path node = .ok fields') :
      Outcome x nested nested' path node { toFieldInfo := info, properties := fields }
        (some { toFieldInfo := info', properties := fields' })

/-- What an array becomes, by the type of its items. -/
inductive ArrayField (x : Extractor) (nested : Nested) (path : Scalar) (info : FieldInfo)
    (items : Value) (itemSchema : Members) : Option Field → Prop where
  | leaf {t info'} (htype : x.schemaType itemSchema = .ok t) (hne : t ≠ .object)
      (hname : info'.name = info.name) (hkind : info'.kind.isSequence = true) :
      ArrayField x nested path info items itemSchema (some (.leaf info'))
  | dropped (htype : x.schemaType itemSchema = .ok .object) (hwalk : nested path items = .ok []) :
      ArrayField x nested path info items itemSchema none
  | items {info' item} (htype : x.schemaType itemSchema = .ok .object)
      (hname : info'.name = info.name) (hwalk : nested path items = .ok item.properties)
      (hfields : item.properties ≠ []) :
      ArrayField x nested path info items itemSchema
        (some { toFieldInfo := info', item := some item })

theorem arrayField_cases {info : FieldInfo} {itemSchema : Members} {itemName : String}
    {r : Option Field}
    (hresolve : x.document.resolve (schema.get "items") = .ok ⟨some itemSchema, itemName⟩)
    (h : x.arrayField nested path info schema = .ok r) :
    x.ArrayField nested path info (schema.get "items") itemSchema r := by
  simp only [arrayField, hresolve, Result.bind_eq_ok, Except.ok.injEq, exists_eq_left'] at h
  obtain ⟨itemType, htype, h⟩ := h
  split at h
  · rename_i hobject
    subst hobject
    obtain ⟨fields, hwalk, h⟩ := Result.bind_eq_ok.1 h
    cases fields with
    | nil =>
      cases h
      exact .dropped htype hwalk
    | cons f fs =>
      cases h
      exact .items htype rfl hwalk (List.cons_ne_nil f fs)
  · rename_i hne
    cases h
    have hkind : ∀ b : Bool, (if b then AttrKind.set else AttrKind.list).isSequence = true := by
      decide
    exact .leaf htype hne rfl (hkind _)

theorem arrayField_raised {n : String} {info : FieldInfo} {f : Field} {r : Option Field}
    (hresolve : x.document.resolve node = .ok ⟨some schema, n⟩)
    (h : x.arrayField nested path info schema = .ok (some f))
    (h' : x.raised.arrayField nested' path info schema = .ok r) :
    x.Outcome nested nested' path node f r := by
  have hitems : ∀ name, x.document.inside? (.items name) node = some (schema.get "items") :=
    fun name => Document.inside?_items name hresolve
  obtain ⟨itemSchema, itemName, hfound⟩ : ∃ itemSchema itemName,
      x.document.resolve (schema.get "items") = .ok ⟨some itemSchema, itemName⟩ := by
    obtain ⟨⟨found, itemName⟩, hfound, h⟩ := Result.bind_eq_ok.1 h
    cases found with
    | none => cases h
    | some itemSchema => exact ⟨itemSchema, itemName, hfound⟩
  have hraised : x.raised.document.resolve (schema.get "items") =
      .ok ⟨some itemSchema, itemName⟩ := hfound
  have hstays : ∀ t, x.raised.schemaType itemSchema = .ok t →
      (t = .object → nested' path (schema.get "items") ≠ .ok []) →
      ¬ x.raised.BareItems nested' path node := by
    rintro t htype hfields ⟨items, schema', n', hat, hresolved, hobject, hnone⟩
    cases (hitems (.text "")).symm.trans (hat (.text ""))
    cases hraised.symm.trans hresolved
    exact hfields (Except.ok.inj (htype.symm.trans hobject)) hnone
  cases arrayField_cases hfound h with
  | @leaf t info₁ htype hne hname hkind =>
    cases arrayField_cases hraised h' with
    | leaf htype' hne' hname' =>
      exact .kept (hname'.trans hname.symm) fun _ => hstays _ htype' fun heq => absurd heq hne'
    | items htype' hname' hwalk' hfields =>
      refine .kept (hname'.trans hname.symm) fun _ => hstays _ htype' fun _ hnone => hfields ?_
      exact Except.ok.inj (hwalk'.symm.trans hnone)
    | dropped htype' hnone =>
      -- A known type stays, so it is items of no known type that turn out to be objects here.
      have hunknown : t = .unknown := by
        by_contra hknown
        exact hne (schemaType_raised htype htype' hknown).symm
      exact .untyped hkind hitems hfound (hunknown ▸ htype) htype' hnone
  | items htype hname hwalk =>
    cases arrayField_cases hraised h' with
    | leaf htype' hne _ => exact absurd (schemaType_raised htype htype' nofun) hne
    | dropped _ hnone => exact .emptied hitems hwalk hnone
    | items _ hname' hwalk' hfields =>
      exact .items (hname'.trans hname.symm) hitems hwalk hwalk' hfields

/-- An object has the fields that are nested in it; without any it is a map. -/
theorem objectField_fields {info : FieldInfo} {f : Field} (hkind : info.kind = .object)
    (h : x.objectField nested path info node schema = .ok f) :
    ∃ info' fields, info'.name = info.name ∧ info'.kind.isSequence = false ∧
      nested path node = .ok fields ∧ f = { toFieldInfo := info', properties := fields } := by
  obtain ⟨fields, hwalk, h⟩ := Result.bind_eq_ok.1 h
  cases fields with
  | nil =>
    obtain ⟨valueType, -, h⟩ := Result.bind_eq_ok.1 h
    cases h
    exact ⟨{ info with kind := .map, itemType := some valueType }, [], rfl, rfl, hwalk, rfl⟩
  | cons g gs =>
    cases h
    exact ⟨info, g :: gs, rfl, by rw [hkind]; rfl, hwalk, rfl⟩

theorem field_raised {f : Field} {r : Option Field}
    (h : x.field nested path name required node = .ok (some f))
    (h' : x.raised.field nested' path name required node = .ok r) :
    x.Outcome nested nested' path node f r := by
  have hfield := h
  simp only [field, Result.bind_eq_ok] at h h'
  obtain ⟨⟨found, n⟩, hresolve, h⟩ := h
  obtain ⟨resolved, hresolve', h'⟩ := h'
  cases hresolve.symm.trans hresolve'
  cases found with
  | none => cases h
  | some schema =>
    simp only [Result.bind_eq_ok] at h h'
    obtain ⟨t, htype, info, hinfo, h⟩ := h
    obtain ⟨t', htype', info', hinfo', h'⟩ := h'
    have hknown : t ≠ .unknown := by
      rintro rfl
      exact field_of_unknown hresolve htype f hfield
    cases schemaType_raised htype htype' hknown
    cases hinfo.symm.trans hinfo'
    obtain ⟨-, hkind, -⟩ := fieldInfo_spec hinfo
    cases hactual : info.type with
    | string =>
      simp only [hactual, Result.bind_eq_ok] at h h'
      obtain ⟨enum, -, h⟩ := h
      obtain ⟨enum', -, h'⟩ := h'
      cases h
      cases h'
      exact .kept rfl fun harray => by
        simp [hkind, hactual, AttrKind.ofType, AttrKind.isSequence] at harray
    | integer | boolean | number =>
      simp only [hactual] at h h'
      cases h
      cases h'
      exact .kept rfl fun harray => by
        simp [hkind, hactual, AttrKind.ofType, AttrKind.isSequence] at harray
    | array =>
      simp only [hactual] at h h'
      exact arrayField_raised hresolve h h'
    | object =>
      simp only [hactual, Result.bind_eq_ok] at h h'
      obtain ⟨g, hg, h⟩ := h
      obtain ⟨g', hg', h'⟩ := h'
      cases h
      cases h'
      rw [hactual] at hkind
      obtain ⟨info₁, fields, hname, hother, hwalk, rfl⟩ := objectField_fields hkind hg
      obtain ⟨info₂, fields', hname', -, hwalk', rfl⟩ := objectField_fields hkind hg'
      exact .object (hname'.trans hname.symm) hother hwalk hwalk'
    | unknown =>
      simp only [hactual, Result.bind_eq_ok] at h
      obtain ⟨_, -, h⟩ := h
      cases h

/-! ## The walk -/

/-- The first of some properties has a field of its name, if it has one. -/
theorem name_of_first {first : Option Field}
    (hexcluded : x.policy.excludes name (dotted path name) = true → first = none)
    (h : x.policy.excludes name (dotted path name) = false →
      x.field nested (dotted path name) name required node = .ok first) {f : Field}
    (hf : first = some f) : f.name = name := by
  subst hf
  cases hexcludes : x.policy.excludes name (dotted path name) with
  | true => cases hexcluded hexcludes
  | false => exact (field_spec (h hexcludes)).name_eq

/--
The field of a property stands in the other list as well, if its property has one there. It is the
only one of its name.
-/
theorem fieldsAmong_raised {required : List Scalar} {members : Members} :
    (members.map Prod.fst).Nodup →
    ∀ {fs gs : List Field}, x.fieldsAmong nested path required members = .ok fs →
      x.raised.fieldsAmong nested' path required members = .ok gs →
      ∀ f ∈ fs, ∃ inner r, (f.name, inner) ∈ members ∧
        x.Outcome nested nested' (dotted path f.name) inner f r ∧
        ∀ g, g ∈ gs ∧ g.name = f.name ↔ r = some g := by
  induction members with
  | nil =>
    intro _ fs gs h _ f hf
    cases h
    cases hf
  | cons m rest ih =>
    obtain ⟨name, inner⟩ := m
    intro hnodup fs gs h h' f hf
    obtain ⟨hnew, hnodup⟩ := List.nodup_cons.1 hnodup
    obtain ⟨first, others, hexcluded, hfirst, hothers, rfl⟩ := fieldsAmong_cons h
    obtain ⟨first', others', hexcluded', hfirst', hothers', rfl⟩ := fieldsAmong_cons h'
    have hlater : ∀ g ∈ others', g.name ≠ name := by
      rintro g hg rfl
      exact hnew ((fieldsAmong_names hothers').subset (List.mem_map_of_mem hg))
    rcases List.mem_append.1 hf with hf | hf
    · cases Option.mem_toList.1 hf
      cases name_of_first hexcluded hfirst rfl
      have hallowed : x.policy.excludes f.name (dotted path f.name) = false :=
        Bool.eq_false_iff.2 fun hexcludes => nomatch hexcluded hexcludes
      refine ⟨inner, first', List.mem_cons_self, field_raised (hfirst hallowed) (hfirst' hallowed),
        fun g => ⟨?_, fun hg => ?_⟩⟩
      · rintro ⟨hg, hname⟩
        exact (List.mem_append.1 hg).elim Option.mem_toList.1 fun hg => absurd hname (hlater g hg)
      · exact ⟨List.mem_append_left _ (Option.mem_toList.2 hg), name_of_first hexcluded' hfirst' hg⟩
    · obtain ⟨inner', r, hmem, houtcome, hin⟩ := ih hnodup hothers hothers' f hf
      refine ⟨inner', r, List.mem_cons_of_mem _ hmem, houtcome, fun g => ⟨?_, fun hg => ?_⟩⟩
      · rintro ⟨hg, hname⟩
        refine (List.mem_append.1 hg).elim (fun hg => ?_) fun hg => (hin g).1 ⟨hg, hname⟩
        cases name_of_first hexcluded' hfirst' (Option.mem_toList.1 hg)
        exact absurd (List.mem_map_of_mem hmem) (hname ▸ hnew)
      · obtain ⟨hg, hname⟩ := (hin g).2 hg
        exact ⟨List.mem_append_right _ hg, hname⟩

theorem fieldsOf_raised {skip : Bool} {fs gs : List Field}
    (h : x.fieldsOf nested skip path node = .ok fs)
    (h' : x.raised.fieldsOf nested' skip path node = .ok gs) :
    ∀ f ∈ fs, ∃ inner r, x.document.property? node f.name = some inner ∧
      x.Outcome nested nested' (dotted path f.name) inner f r ∧
      ∀ g, g ∈ gs ∧ g.name = f.name ↔ r = some g := by
  simp only [fieldsOf, Result.bind_eq_ok] at h h'
  obtain ⟨⟨found, n⟩, hresolve, h⟩ := h
  obtain ⟨resolved, hresolve', h'⟩ := h'
  cases hresolve.symm.trans hresolve'
  cases found with
  | none =>
    intro f hf
    cases h
    cases hf
  | some schema =>
    simp only [Result.bind_eq_ok] at h h'
    obtain ⟨⟨properties, required⟩, hproperties, sorted, hsorted, h⟩ := h
    obtain ⟨collected, hcollected, sorted', hsorted', h'⟩ := h'
    cases hproperties.symm.trans hcollected
    cases hsorted.symm.trans hsorted'
    obtain ⟨kept, hsublist, h, h'⟩ : ∃ kept, kept.Sublist sorted ∧
        x.fieldsAmong nested path required kept = .ok fs ∧
        x.raised.fieldsAmong nested' path required kept = .ok gs := by
      cases skip with
      | false => exact ⟨sorted, .refl _, h, h'⟩
      | true =>
        obtain ⟨kept, hkept, h⟩ := Result.bind_eq_ok.1 h
        obtain ⟨kept', hkept', h'⟩ := Result.bind_eq_ok.1 h'
        rw [withoutIdentifier_congr (x := x.raised) (y := x) rfl, hkept] at hkept'
        cases hkept'
        exact ⟨kept, withoutIdentifier_sublist hkept, h, h'⟩
    have hperm := sortOnKey_perm hsorted
    have hnodup : (kept.map Prod.fst).Nodup :=
      ((hperm.map _).nodup_iff.2 (Schema.properties_apart hproperties).nodup).sublist
        (hsublist.map _)
    intro f hf
    obtain ⟨inner, r, hmem, houtcome, hin⟩ := fieldsAmong_raised hnodup h h' f hf
    exact ⟨inner, r, Document.property?_of_mem hresolve hproperties
      (hperm.subset (hsublist.subset hmem)), houtcome, hin⟩

/--
What becomes of a field of a walk stands in the walk with one more level, and nothing else has its
name there.
-/
theorem outcome_of_walkFrom {skip : Bool} {depth : Int} {fs gs : List Field}
    (h : x.walkFrom skip depth path node = .ok fs)
    (h' : x.raised.walkFrom skip depth path node = .ok gs) {f : Field} (hf : f ∈ fs) :
    ∃ inner r, x.document.property? node f.name = some inner ∧
      x.Outcome (x.walkFrom false (depth + 1)) (x.raised.walkFrom false (depth + 1))
        (dotted path f.name) inner f r ∧ ∀ g, g ∈ gs ∧ g.name = f.name ↔ r = some g := by
  cases hlevels : x.levelsFrom depth with
  | zero =>
    rw [walkFrom, hlevels] at h
    cases h
    cases hf
  | succ levels =>
    obtain ⟨hdepth, -⟩ := levelsFrom_eq_succ hlevels
    have hraised : depth ≤ x.raised.maxDepth := Int.le_add_one hdepth
    rw [walkFrom_eq_fieldsOf hdepth] at h
    rw [walkFrom_eq_fieldsOf hraised] at h'
    exact fieldsOf_raised h h' f hf

/-! ## What stays -/

/-- Each field of a walk is there with one more level as well, at the same place, or fades. -/
def Lasts (x : Extractor) (depth : Int) (path : Scalar) (node : Value) (fs gs : List Field) :
    Prop :=
  ∀ steps f, OccursAt f steps fs →
    (∃ g, g.name = f.name ∧ OccursAt g steps gs) ∨ x.Fades depth path node steps f

/-- One level down, each field of a walk lasts. -/
def LastsBelow (x : Extractor) (depth : Int) : Prop :=
  ∀ path node fs gs, x.walkFrom false (depth + 1) path node = .ok fs →
    x.raised.walkFrom false (depth + 1) path node = .ok gs → x.Lasts (depth + 1) path node fs gs

/-- The field of a property has a counterpart, or it fades. -/
theorem Outcome.here {depth : Int} {inner : Value} {f : Field} {r : Option Field}
    (h : x.Outcome (x.walkFrom false (depth + 1)) (x.raised.walkFrom false (depth + 1))
      (dotted path f.name) inner f r)
    (hproperty : x.document.property? node f.name = some inner) (below : x.LastsBelow depth) :
    (∃ g, r = some g) ∨ x.Fades depth path node [] f := by
  cases h with
  | kept | items | object => exact .inl ⟨_, rfl⟩
  | untyped harray hitems hresolve htype hraised hnone =>
    exact .inr (.untyped hproperty harray (hitems _) hresolve htype hraised hnone)
  | emptied hitems hwalk hnone =>
    refine .inr (.emptied hproperty (hitems _) rfl hnone fun g hg => ?_)
    refine (below _ _ _ _ hwalk hnone [] g (.here hg)).resolve_left ?_
    rintro ⟨_, -, hin⟩
    exact Field.not_occursAt_nil hin

/-- What a step through the field of a property leads among is walked on both sides. -/
theorem Outcome.inside {f : Field} {r : Option Field}
    (h : x.Outcome nested nested' path node f r) {step : Step} (hne : step.inside f ≠ []) :
    ∃ v, x.document.inside? step node = some v ∧ nested path v = .ok (step.inside f) ∧
      ((r = none ∧ nested' path v = .ok []) ∨
        ∃ g, r = some g ∧ nested' path v = .ok (step.inside g)) := by
  cases h with
  | kept | untyped => cases step <;> exact absurd rfl hne
  | emptied hitems hwalk hnone =>
    cases step with
    | object n => exact absurd rfl hne
    | items n => exact ⟨_, hitems n, hwalk, .inl ⟨rfl, hnone⟩⟩
  | items hname hitems hwalk hwalk' =>
    cases step with
    | object n => exact absurd rfl hne
    | items n => exact ⟨_, hitems n, hwalk, .inr ⟨_, rfl, hwalk'⟩⟩
  | object hname hkind hwalk hwalk' =>
    cases step with
    | object n => exact ⟨_, rfl, hwalk, .inr ⟨_, rfl, hwalk'⟩⟩
    | items n => exact absurd rfl hne

/-- Where each field of a walk lasts one level down, it does so on this one. -/
theorem LastsBelow.lasts {depth : Int} (below : x.LastsBelow depth) {skip : Bool}
    {fs gs : List Field} (h : x.walkFrom skip depth path node = .ok fs)
    (h' : x.raised.walkFrom skip depth path node = .ok gs) : x.Lasts depth path node fs gs := by
  intro steps d hd
  cases steps with
  | nil =>
    obtain ⟨inner, r, hproperty, houtcome, hin⟩ :=
      outcome_of_walkFrom h h' (Field.occursAt_nil_iff.1 hd)
    refine (houtcome.here hproperty below).imp_left ?_
    rintro ⟨g, hg⟩
    obtain ⟨hg, hname⟩ := (hin g).2 hg
    exact ⟨g, hname, .here hg⟩
  | cons step steps =>
    obtain ⟨f, hf, hstep, hd⟩ := Field.occursAt_cons_iff.1 hd
    obtain ⟨inner, r, hproperty, houtcome, hin⟩ := outcome_of_walkFrom h h' hf
    have hne : step.inside f ≠ [] := by
      intro hnil
      exact Field.not_occursAt_nil (hnil ▸ hd)
    obtain ⟨v, hv, hwalk, hwalk'⟩ := houtcome.inside hne
    rw [hstep] at hproperty hwalk hwalk' hin
    rcases hwalk' with ⟨-, hnone⟩ | ⟨g, hg, hwalk'⟩
    · rcases below _ _ _ _ hwalk hnone steps d hd with ⟨_, -, hnil⟩ | hfades
      · exact absurd hnil Field.not_occursAt_nil
      · exact .inr (.inside hproperty hv hfades)
    · rcases below _ _ _ _ hwalk hwalk' steps d hd with ⟨d', hd', hoccurs⟩ | hfades
      · obtain ⟨hg, hname⟩ := (hin g).2 hg
        exact .inl ⟨d', hd', Field.occursAt_cons_iff.2 ⟨g, hg, hname, hoccurs⟩⟩
      · exact .inr (.inside hproperty hv hfades)

theorem lasts_walkFrom {levels : Nat} : ∀ {skip : Bool} {depth : Int} {path : Scalar} {node : Value}
    {fs gs : List Field}, x.levelsFrom depth = levels → x.walkFrom skip depth path node = .ok fs →
      x.raised.walkFrom skip depth path node = .ok gs → x.Lasts depth path node fs gs := by
  induction levels with
  | zero =>
    intro skip depth path node fs gs hlevels h _ steps f hf
    rw [walkFrom, hlevels] at h
    cases h
    exact absurd hf Field.not_occursAt_nil
  | succ levels ih =>
    intro skip depth path node fs gs hlevels h h'
    obtain ⟨-, hnext⟩ := levelsFrom_eq_succ hlevels
    exact LastsBelow.lasts (fun _ _ _ _ => ih hnext) h h'

/-! ## What is lost -/

/-- An array whose items are objects without fields has no field. -/
theorem Outcome.eq_none_of_bareItems {f : Field} {r : Option Field}
    (h : x.Outcome nested nested' path node f r) (harray : f.kind.isSequence = true)
    (hbare : x.raised.BareItems nested' path node) : r = none := by
  cases h with
  | kept _ hstays => exact absurd hbare (hstays harray)
  | untyped | emptied => rfl
  | items _ hitems _ hwalk' hfields =>
    obtain ⟨_, _, _, hat, -, -, hnone⟩ := hbare
    cases (hitems (.text "")).symm.trans (hat (.text ""))
    exact absurd (Except.ok.inj (hwalk'.symm.trans hnone)) hfields
  | object _ hkind => exact absurd harray (Bool.eq_false_iff.1 hkind)

/-- An array of objects has no field if these have none. -/
theorem Outcome.eq_none_of_item {f item : Field} {r : Option Field} {items : Value}
    (h : x.Outcome nested nested' path node f r) (hitem : f.item = some item)
    (hitems : x.document.inside? (.items f.name) node = some items)
    (hnone : nested' path items = .ok []) : r = none := by
  cases h with
  | kept | object => cases hitem
  | untyped | emptied => rfl
  | items _ hat _ hwalk' hfields =>
    cases (hat _).symm.trans hitems
    exact absurd (Except.ok.inj (hwalk'.symm.trans hnone)) hfields

/-- A field that fades has no counterpart. -/
theorem Fades.lost {depth : Int} {steps : List Step} {f : Field}
    (hfades : x.Fades depth path node steps f) :
    ∀ {skip : Bool} {fs gs : List Field}, x.walkFrom skip depth path node = .ok fs →
      x.raised.walkFrom skip depth path node = .ok gs → OccursAt f steps fs →
      ¬ ∃ g, g.name = f.name ∧ OccursAt g steps gs := by
  induction hfades with
  | untyped hproperty harray hitems hresolve htype hraised hnone =>
    rintro skip fs gs h h' hf ⟨g, hname, hg⟩
    obtain ⟨inner, r, hproperty', houtcome, hin⟩ :=
      outcome_of_walkFrom h h' (Field.occursAt_nil_iff.1 hf)
    cases hproperty.symm.trans hproperty'
    have hlost := houtcome.eq_none_of_bareItems harray
      ⟨_, _, _, fun _ => hitems, hresolve, hraised, hnone⟩
    cases hlost.symm.trans ((hin g).1 ⟨Field.occursAt_nil_iff.1 hg, hname⟩)
  | emptied hproperty hitems hitem hnone =>
    rintro skip fs gs h h' hf ⟨g, hname, hg⟩
    obtain ⟨inner, r, hproperty', houtcome, hin⟩ :=
      outcome_of_walkFrom h h' (Field.occursAt_nil_iff.1 hf)
    cases hproperty.symm.trans hproperty'
    have hlost := houtcome.eq_none_of_item hitem hitems hnone
    cases hlost.symm.trans ((hin g).1 ⟨Field.occursAt_nil_iff.1 hg, hname⟩)
  | inside hproperty hstep _ ih =>
    rintro skip fs gs h h' hf ⟨g, hname, hg⟩
    obtain ⟨f₀, hf₀, hname₀, hf⟩ := Field.occursAt_cons_iff.1 hf
    obtain ⟨g₀, hg₀, hname', hg⟩ := Field.occursAt_cons_iff.1 hg
    obtain ⟨inner, r, hproperty', houtcome, hin⟩ := outcome_of_walkFrom h h' hf₀
    rw [hname₀] at hproperty' houtcome
    cases hproperty.symm.trans hproperty'
    have hr := (hin g₀).1 ⟨hg₀, hname'.trans hname₀.symm⟩
    obtain ⟨v, hv, hwalk, hwalk'⟩ := houtcome.inside fun hnil => by
      rw [hnil] at hf
      exact Field.not_occursAt_nil hf
    cases hstep.symm.trans hv
    rcases hwalk' with ⟨hnone, -⟩ | ⟨g₁, hg₁, hwalk'⟩
    · cases hnone.symm.trans hr
    · cases hg₁.symm.trans hr
      exact ih hwalk hwalk' hf ⟨g, hname, hg⟩

/--
With one more level, a field of a walk is there at the same place, unless it is an array whose items
turn out to be objects without fields, or an array of objects that has such arrays only, or stands
in one of these. Then it is lost.
-/
theorem walkFrom_raised (x : Extractor) {skip : Bool} {depth : Int} {path : Scalar} {node : Value}
    {fs gs : List Field} (h : x.walkFrom skip depth path node = .ok fs)
    (h' : x.raised.walkFrom skip depth path node = .ok gs) {steps : List Step} {f : Field}
    (hf : OccursAt f steps fs) :
    (∃ g, g.name = f.name ∧ OccursAt g steps gs) ↔ ¬ x.Fades depth path node steps f := by
  constructor
  · exact fun hstays hfades => hfades.lost h h' hf hstays
  · exact fun hfades => (lasts_walkFrom rfl h h' steps f hf).resolve_right hfades

namespace Sample

/-- An extractor for one level of nodes without references. -/
def shallow : Extractor := { document := ⟨[], []⟩, maxDepth := 0 }

/-- A node with a list of tags, which are some objects by an alternative of an alternative. -/
def withTags : Value :=
  .record [("properties", .record [("tags", .record [("type", .text "array"),
    ("items", .union "oneOf" [.union "oneOf" [.record [("type", .text "object")]]])])])]

/-- With one more level the tags turn out to be objects without fields, and are left out. -/
theorem tags_lost : ∃ f, shallow.walkFrom false 0 (.text "") withTags = .ok [f] ∧
    f.name = .text "tags" ∧ f.kind = .list ∧ f.itemType = some .unknown ∧
    shallow.raised.walkFrom false 0 (.text "") withTags = .ok [] ∧
    ¬ ∃ g, g.name = f.name ∧ OccursAt g [] [] := by
  refine ⟨_, rfl, rfl, rfl, rfl, rfl, ?_⟩
  rintro ⟨_, -, hnil⟩
  exact Field.not_occursAt_nil hnil

end Sample

namespace Sample

/-- An extractor for two levels. -/
def deeper : Extractor := { document := ⟨[], []⟩, maxDepth := 1 }

/-- The type of an object by an alternative of an alternative of an alternative. -/
def remoteObject : Value :=
  .union "oneOf" [.union "oneOf" [.union "oneOf" [.record [("type", .text "object")]]]]

/-- A list of such objects. -/
def remoteList : Value := .record [("type", .text "array"), ("items", remoteObject)]

/--
A node with tags as above, one level further away, with an owner at some place, and with a label
that is a text, though a part of the node says that it is a list.
-/
def owned : Value :=
  .record [("properties", .record
    [("label", .record [("type", .text "string")]),
     ("owner", .record [("properties", .record [("place", .record
      [("properties", .record [("city", .record [("type", .text "string")])])])])]),
     ("tags", remoteList)]),
   ("allOf", .list [.record [("properties", .record [("label", remoteList)])]])]

end Sample

/--
With one more level the label stays, the place of the owner stays and gets a city, and the tags are
lost.
-/
theorem walkFrom_raised_sample :
    ∃ fs gs, Sample.deeper.walkFrom false 0 (.text "") Sample.owned = .ok fs ∧
      Sample.deeper.raised.walkFrom false 0 (.text "") Sample.owned = .ok gs ∧
      (∃ f g, f.name = .text "label" ∧ g.name = f.name ∧ OccursAt f [] fs ∧ OccursAt g [] gs ∧
        ¬ Sample.deeper.Fades 0 (.text "") Sample.owned [] f) ∧
      (∃ f g, f.name = .text "place" ∧ g.name = f.name ∧ f.kind = .map ∧ g.kind = .object ∧
        OccursAt f [.object (.text "owner")] fs ∧ OccursAt g [.object (.text "owner")] gs ∧
        ¬ Sample.deeper.Fades 0 (.text "") Sample.owned [.object (.text "owner")] f) ∧
      ∃ f, f.name = .text "tags" ∧ OccursAt f [] fs ∧ (∀ g ∈ gs, g.name ≠ f.name) ∧
        Sample.deeper.Fades 0 (.text "") Sample.owned [] f := by
  obtain ⟨l, o, p, f, hwalk, hlabel, howner, hplace, hname, hkind, htags⟩ : ∃ l o p f : Field,
      Sample.deeper.walkFrom false 0 (.text "") Sample.owned = .ok [l, o, f] ∧
      l.name = .text "label" ∧ o.name = .text "owner" ∧ o.properties = [p] ∧
      p.name = .text "place" ∧ p.kind = .map ∧ f.name = .text "tags" :=
    ⟨_, _, _, _, rfl, rfl, rfl, rfl, rfl, rfl, rfl⟩
  obtain ⟨l', o', p', hraised, hlabel', howner', hplace', hname', hkind'⟩ : ∃ l' o' p' : Field,
      Sample.deeper.raised.walkFrom false 0 (.text "") Sample.owned = .ok [l', o'] ∧
      l'.name = .text "label" ∧ o'.name = .text "owner" ∧ o'.properties = [p'] ∧
      p'.name = .text "place" ∧ p'.kind = .object := ⟨_, _, _, rfl, rfl, rfl, rfl, rfl, rfl⟩
  have hl : OccursAt l [] [l, o, f] := .here List.mem_cons_self
  have hl' : OccursAt l' [] [l', o'] := .here List.mem_cons_self
  have hp : OccursAt p [.object (.text "owner")] [l, o, f] :=
    howner ▸ .object (List.mem_cons_of_mem _ List.mem_cons_self)
      (.here (hplace ▸ List.mem_cons_self))
  have hp' : OccursAt p' [.object (.text "owner")] [l', o'] :=
    howner' ▸ .object (List.mem_cons_of_mem _ List.mem_cons_self)
      (.here (hplace' ▸ List.mem_cons_self))
  have hf : OccursAt f [] [l, o, f] := .here (by simp)
  have hlost : ∀ g ∈ [l', o'], g.name ≠ f.name := by
    simp [hlabel', howner', htags]
  refine ⟨_, _, hwalk, hraised, ⟨l, l', hlabel, hlabel'.trans hlabel.symm, hl, hl', ?_⟩,
    ⟨p, p', hname, hname'.trans hname.symm, hkind, hkind', hp, hp', ?_⟩, f, htags, hf, hlost, ?_⟩
  · exact (walkFrom_raised Sample.deeper hwalk hraised hl).1 ⟨l', hlabel'.trans hlabel.symm, hl'⟩
  · exact (walkFrom_raised Sample.deeper hwalk hraised hp).1 ⟨p', hname'.trans hname.symm, hp'⟩
  · by_contra hstays
    obtain ⟨g, hg, hin⟩ := (walkFrom_raised Sample.deeper hwalk hraised hf).2 hstays
    exact hlost g (Field.occursAt_nil_iff.1 hin) hg

end Extractor

end ApiModels
