/-
ApiModels.Proofs.Extract.Walk — what the walk of a schema node gives.

`Extractor.FieldOf` lists the three forms that the field of a property can
have, and `Extractor.LevelOf` says what one level of the walk is: fields of
properties of the node, in the order of their names. All else is shown by
`walkFrom_induction`, which follows the levels.

`Document.Schema` is where schemas stand in a document; the walk never
leaves these places. The names that it gives to fields are the names of
properties there (`extract_names`).
-/
import ApiModels.Extract.Walk
import ApiModels.Proofs.Field.Form
import ApiModels.Proofs.Struct.Fingerprint
import ApiModels.Proofs.Value.Sorting

namespace ApiModels

/-- Steps one after another give a result exactly when each of them does. -/
theorem Result.bind_eq_ok {α β : Type} {x : Result α} {f : α → Result β} {b : β} :
    (x >>= f) = .ok b ↔ ∃ a, x = .ok a ∧ f a = .ok b := by
  cases x with
  | error e => simp [bind, Except.bind]
  | ok a => simp [bind, Except.bind]

/-! ## Where schemas stand -/

namespace Document

/-- A schema has a property: it states it, or a part that it is composed of does. -/
inductive HasProperty (d : Document) (schema : Members) (name : Scalar) (node : Value) : Prop where
  | own {properties} (h : (schema.get "properties").association = .ok properties)
      (hmem : (name, node) ∈ properties)
  | inherited {parts part n partSchema properties}
      (hparts : (schema.get "allOf").itemsOrNone = .ok parts) (hpart : part ∈ parts)
      (hresolve : d.resolve part = .ok ⟨some partSchema, n⟩)
      (h : (Members.get partSchema "properties").membersOrNone = .ok properties)
      (hmem : (name, node) ∈ properties)

/-- A schema stands in a node of a document, or is made for an offering. -/
inductive Schema (d : Document) : Value → Prop where
  | request {o body n node} (ho : o ∈ d.operations)
      (hbody : d.resolve (o.spec.get "requestBody") = .ok ⟨some body, n⟩)
      (h : bodySchema body = .ok node) : Schema d node
  | response {o responses code body n node} (ho : o ∈ d.operations)
      (hresponses : (o.spec.get "responses").membersOrNone = .ok responses)
      (hcode : code ∈ successCodes)
      (hbody : d.resolve (responseFor responses code) = .ok ⟨some body, n⟩)
      (h : bodySchema body = .ok node) : Schema d node
  | component {name node} (h : d.schema name = .ok node) : Schema d node
  | items {node schema n} (hnode : Schema d node)
      (hresolve : d.resolve node = .ok ⟨some schema, n⟩) : Schema d (schema.get "items")
  | property {node schema n name inner} (hnode : Schema d node)
      (hresolve : d.resolve node = .ok ⟨some schema, n⟩)
      (h : d.HasProperty schema name inner) : Schema d inner

/-- A document that declares nothing declares no schemas. -/
theorem schema_ne_ok_of_empty {d : Document} (h : d.root = []) (name node : Value) :
    d.schema name ≠ .ok node := by
  intro hschema
  simp only [Document.schema, Result.bind_eq_ok, h] at hschema
  obtain ⟨_, hcomponents, has, hhas, hschema⟩ := hschema
  cases hcomponents
  obtain ⟨_, -, hhas⟩ := Result.bind_eq_ok.1 hhas
  cases hhas
  cases hschema

/-- The schema that a node leads to. -/
def schemaAt? (d : Document) (node : Value) : Option Members :=
  (d.resolve node).toOption.bind (·.node)

/-- The node whose properties a step through a property leads among. -/
def inside? (d : Document) : Field.Step → Value → Option Value
  | .object _, node => some node
  | .items _, node => (d.schemaAt? node).map (·.get "items")

theorem schemaAt?_eq {d : Document} {node : Value} {schema : Members} {n : String}
    (h : d.resolve node = .ok ⟨some schema, n⟩) : d.schemaAt? node = some schema := by
  rw [schemaAt?, h]
  rfl

end Document

/-- A name, if it is a text, holds no marks and something besides underscores. -/
def Scalar.Sound (name : Scalar) : Prop :=
  ∀ s, name = .text s → ApiModels.Unmarked s ∧ ∃ c ∈ s.toList, c ≠ '_'

/-- A name, if it is a text, has something besides underscores. -/
def Scalar.Lettered (name : Scalar) : Prop :=
  ∀ s, name = .text s → ∃ c ∈ s.toList, c ≠ '_'

theorem Scalar.Sound.lettered {name : Scalar} (h : name.Sound) : name.Lettered :=
  fun s hs => (h s hs).2

namespace Document

/-- In the schemas of a document the names of properties are all of some form. -/
def NamesAre (d : Document) (N : Scalar → Prop) : Prop :=
  ∀ node schema n, d.Schema node → d.resolve node = .ok ⟨some schema, n⟩ →
    ∀ name inner, d.HasProperty schema name inner → N name

theorem NamesAre.mono {d : Document} {N N' : Scalar → Prop} (hN : ∀ name, N name → N' name)
    (h : d.NamesAre N) : d.NamesAre N' :=
  fun node schema n hnode hresolve name inner hmem =>
    hN name (h node schema n hnode hresolve name inner hmem)

/-- The name of the reference that a node is, if it is one, holds no marks. -/
def RefUnmarked (d : Document) (node : Value) : Prop :=
  ∀ schema n, d.resolve node = .ok ⟨some schema, n⟩ → Unmarked n

/-- In the schemas of a document the names of properties and of references are sound. -/
structure NamesSound (d : Document) : Prop where
  property : ∀ node schema n, d.Schema node → d.resolve node = .ok ⟨some schema, n⟩ →
    ∀ name inner, d.HasProperty schema name inner → name.Sound ∧ d.RefUnmarked inner
  items : ∀ node schema n, d.Schema node → d.resolve node = .ok ⟨some schema, n⟩ →
    d.RefUnmarked (schema.get "items")

theorem NamesSound.namesAre {d : Document} (h : d.NamesSound) : d.NamesAre Scalar.Sound :=
  fun node schema n hnode hresolve name inner hmem =>
    (h.property node schema n hnode hresolve name inner hmem).1

end Document

/-! ## Members with distinct names -/

/-- The names that are texts. -/
def textNames {α : Type} (members : List (Scalar × α)) : List String :=
  members.filterMap fun m => m.1.text?

theorem not_mem_textNames_of_lookup {members : Members} {s : String}
    (h : (members.lookup (.text s)).isSome = false) : s ∉ textNames members := by
  intro hmem
  obtain ⟨m, hm, hs⟩ := List.mem_filterMap.1 hmem
  have hsome : (members.lookup (.text s)).isSome = true := by
    unfold Members.lookup
    rw [Option.isSome_map, List.find?_isSome]
    exact ⟨m, hm, by rw [Scalar.eq_text_of_text? hs]; simp⟩
  rw [hsome] at h
  cases h

namespace Schema

theorem mem_addProperties {m : Scalar × Value} {new : Members} :
    ∀ {known : Members}, m ∈ addProperties known new → m ∈ known ∨ m ∈ new := by
  induction new with
  | nil => exact fun h => .inl h
  | cons p rest ih =>
    intro known h
    unfold addProperties at h
    split at h
    · exact (ih h).imp id (List.mem_cons_of_mem _)
    · rcases ih h with h | h
      · rcases List.mem_append.1 h with h | h
        · exact .inl h
        · exact .inr (List.mem_singleton.1 h ▸ List.mem_cons_self)
      · exact .inr (List.mem_cons_of_mem _ h)

theorem nodup_addProperties {new : Members} :
    ∀ {known : Members}, (textNames known).Nodup → (textNames (addProperties known new)).Nodup := by
  induction new with
  | nil => exact fun h => h
  | cons p rest ih =>
    intro known h
    unfold addProperties
    split
    · exact ih h
    · rename_i hnew
      refine ih ?_
      rw [textNames, List.filterMap_append]
      cases hs : p.1.text? with
      | none => simpa [hs, textNames] using h
      | some s =>
        have hfresh : s ∉ textNames known := by
          refine not_mem_textNames_of_lookup ?_
          rw [← Scalar.eq_text_of_text? hs]
          simpa using hnew
        simp only [List.filterMap_cons, hs, List.filterMap_nil]
        exact List.nodup_append.2 ⟨h, by simp, by
          intro a ha b hb
          rw [List.mem_singleton.1 hb]
          exact fun heq => hfresh (heq ▸ ha)⟩

theorem addParts_spec {d : Document} {parts : List Value} :
    ∀ {properties : Members} {required : List Scalar} {result : Members × List Scalar},
      addParts d parts properties required = .ok result →
      ((textNames properties).Nodup → (textNames result.1).Nodup) ∧
      ∀ m ∈ result.1, m ∈ properties ∨ ∃ part ∈ parts, ∃ n schema inherited,
        d.resolve part = .ok ⟨some schema, n⟩ ∧
        (Members.get schema "properties").membersOrNone = .ok inherited ∧ m ∈ inherited := by
  induction parts with
  | nil =>
    intro properties required result h
    cases h
    exact ⟨id, fun m hm => .inl hm⟩
  | cons part rest ih =>
    intro properties required result h
    rw [addParts, Result.bind_eq_ok] at h
    obtain ⟨⟨node, n⟩, hresolve, h⟩ := h
    cases node with
    | none =>
      obtain ⟨hnodup, hmem⟩ := ih h
      refine ⟨hnodup, fun m hm => (hmem m hm).imp id ?_⟩
      rintro ⟨p, hp, hrest⟩
      exact ⟨p, List.mem_cons_of_mem _ hp, hrest⟩
    | some schema =>
      simp only [Result.bind_eq_ok] at h
      obtain ⟨inherited, hinherited, names, -, h⟩ := h
      obtain ⟨hnodup, hmem⟩ := ih h
      refine ⟨fun hp => hnodup (nodup_addProperties hp), fun m hm => ?_⟩
      rcases hmem m hm with hm | ⟨p, hp, hrest⟩
      · refine (mem_addProperties hm).imp id fun hm => ?_
        exact ⟨part, List.mem_cons_self, n, schema, inherited, hresolve, hinherited, hm⟩
      · exact .inr ⟨p, List.mem_cons_of_mem _ hp, hrest⟩

theorem properties_spec {d : Document} {schema : Members} {result : Members × List Scalar}
    (h : properties d schema = .ok result) :
    (textNames result.1).Nodup ∧ ∀ name node, (name, node) ∈ result.1 →
      d.HasProperty schema name node := by
  simp only [properties, Result.bind_eq_ok] at h
  obtain ⟨own, hown, required, -, parts, hparts, h⟩ := h
  obtain ⟨hnodup, hmem⟩ := addParts_spec h
  refine ⟨hnodup (nodup_addProperties (by simp [textNames])), fun name node hm => ?_⟩
  rcases hmem _ hm with hm | ⟨part, hpart, n, s, inherited, hresolve, hinherited, hm⟩
  · rcases mem_addProperties hm with hm | hm
    · cases hm
    · exact .own hown hm
  · exact .inherited hparts hpart hresolve hinherited hm

end Schema

namespace Extractor

variable {x : Extractor} {nested : Nested} {path name : Scalar} {node : Value}

/-! ## The forms of a field -/

/-- What the walk says of a field besides the types and flags that its schema declares. -/
structure Said (x : Extractor) (schema : Members) (name : Scalar) (refName : String)
    (info : FieldInfo) : Prop where
  name : info.name = name
  refName : info.refName = refName
  described : ∃ text, Schema.textOrNone (schema.get "description") = .ok text ∧
    info.description = Description.escape text
  unnamed : info.attrTypeRef = ""
  noPathParam : info.isPathParam = false
  unskipped : info.schemaSkip = false
  /-- Only overrides make a field the server's, or one that forces a new resource. -/
  untouched : x.policy.overrides = [] →
    info.serverComputed = false ∧ info.forceNew = false ∧ info.useStateForUnknown = false

theorem Said.retyped {schema : Members} {refName : String} {info : FieldInfo}
    (said : x.Said schema name refName info) (type : SemanticType) (kind : AttrKind)
    (itemType : Option SemanticType) (itemRefName : String) (enum : List String) :
    x.Said schema name refName { info with type, kind, itemType, itemRefName, enum } :=
  ⟨said.name, said.refName, said.described, said.unnamed, said.noPathParam, said.unskipped,
    said.untouched⟩

/-- The item schema of an array whose items have these fields. -/
def itemField (refName : String) (fields : List Field) : Field :=
  { name := .text "", type := .object, refName := refName, properties := fields }

/-- A field has one of the forms that the field of a property at a path can have. -/
inductive FieldOf (x : Extractor) (nested : Nested) (path name : Scalar) (node : Value) :
    Field → Prop where
  | leaf {schema n info} (hresolve : x.document.resolve node = .ok ⟨some schema, n⟩)
      (said : x.Said schema name n info) (hkind : info.kind ≠ .object)
      (htype : info.kind.isSequence = true → info.itemType ≠ some .object)
      (hvalues : info.kind = .map → ∃ t, info.itemType = some t ∧ t.isScalar = true) :
      FieldOf x nested path name node (.leaf info)
  | items {schema n info inner refName fields}
      (hresolve : x.document.resolve node = .ok ⟨some schema, n⟩)
      (said : x.Said schema name n info) (hkind : info.kind.isSequence = true)
      (htype : info.itemType = some .object)
      (hitems : x.document.resolve (schema.get "items") = .ok ⟨some inner, refName⟩)
      (hwalk : nested path (schema.get "items") = .ok fields) (hfields : fields ≠ []) :
      FieldOf x nested path name node
        { toFieldInfo := info, item := some (itemField refName fields) }
  | object {schema n info fields}
      (hresolve : x.document.resolve node = .ok ⟨some schema, n⟩)
      (said : x.Said schema name n info) (hkind : info.kind = .object)
      (hwalk : nested path node = .ok fields) (hfields : fields ≠ []) :
      FieldOf x nested path name node { toFieldInfo := info, properties := fields }

theorem fieldInfo_spec {required : Bool} {refName : String} {type : SemanticType}
    {schema : Members} {info : FieldInfo}
    (h : x.fieldInfo path name required refName type schema = .ok info) :
    x.Said schema name refName info ∧ info.kind = .ofType info.type ∧ info.itemType = none := by
  simp only [fieldInfo, Result.bind_eq_ok] at h
  obtain ⟨description, hdescription, minimum, -, maximum, -, h⟩ := h
  have hdescribed : ∃ text, Schema.textOrNone (schema.get "description") = .ok text ∧
      Description.escape description = Description.escape text :=
    ⟨description, hdescription, rfl⟩
  cases ho : x.policy.overrideAt? path with
  | none =>
    rw [ho] at h
    cases h
    exact ⟨⟨rfl, rfl, hdescribed, rfl, rfl, rfl, fun _ => ⟨rfl, rfl, rfl⟩⟩, rfl, rfl⟩
  | some o =>
    rw [ho] at h
    cases h
    refine ⟨⟨rfl, rfl, hdescribed, rfl, rfl, rfl, fun hnone => ?_⟩, rfl, rfl⟩
    simp [Policy.overrideAt?, hnone] at ho

theorem arrayField_spec {schema : Members} {n : String} {info : FieldInfo} {f : Field}
    (hresolve : x.document.resolve node = .ok ⟨some schema, n⟩) (said : x.Said schema name n info)
    (h : x.arrayField nested path info schema = .ok (some f)) :
    x.FieldOf nested path name node f := by
  simp only [arrayField, Result.bind_eq_ok] at h
  obtain ⟨⟨itemNode, refName⟩, hitems, h⟩ := h
  cases itemNode with
  | none => cases h
  | some itemSchema =>
    simp only [Result.bind_eq_ok] at h
    obtain ⟨itemType, -, h⟩ := h
    have hsequence : ∀ b : Bool, (if b then AttrKind.set else AttrKind.list).isSequence = true := by
      decide
    split at h
    · rename_i htype
      rw [Result.bind_eq_ok] at h
      obtain ⟨fields, hwalk, h⟩ := h
      cases fields with
      | nil => cases h
      | cons g gs =>
        cases h
        exact .items hresolve (said.retyped _ _ _ _ _) (hsequence _) (congrArg some htype)
          hitems hwalk nofun
    · rename_i htype
      cases h
      have hne : ∀ b : Bool, (if b then AttrKind.set else AttrKind.list) ≠ .object := by decide
      have hnotMap : ∀ b : Bool, (if b then AttrKind.set else AttrKind.list) ≠ .map := by decide
      exact .leaf hresolve (said.retyped _ _ _ _ _) (hne _)
        (fun _ heq => htype (Option.some.inj heq)) fun hmap => absurd hmap (hnotMap _)

theorem mapValueType_isScalar {schema : Members} {t : SemanticType}
    (h : x.mapValueType name schema = .ok t) : t.isScalar = true := by
  have hactual : ∀ s : SemanticType, s.isScalar = true →
      (s.actualMapValue name.display).isScalar = true := by
    intro s hs
    unfold SemanticType.actualMapValue
    split
    · rfl
    · exact hs
  simp only [mapValueType] at h
  split at h
  · rw [Result.bind_eq_ok] at h
    obtain ⟨⟨node, _⟩, -, h⟩ := h
    cases node with
    | none =>
      cases h
      rfl
    | some valueSchema =>
      simp only [Result.bind_eq_ok] at h
      obtain ⟨declared, -, h⟩ := h
      cases declared <;> cases h <;> first | rfl | exact hactual _ rfl
  · cases h
    rfl

theorem objectField_spec {schema : Members} {n : String} {info : FieldInfo} {f : Field}
    (hresolve : x.document.resolve node = .ok ⟨some schema, n⟩) (said : x.Said schema name n info)
    (hkind : info.kind = .object)
    (h : x.objectField nested path info node schema = .ok f) :
    x.FieldOf nested path name node f := by
  simp only [objectField, Result.bind_eq_ok] at h
  obtain ⟨fields, hwalk, h⟩ := h
  cases fields with
  | nil =>
    simp only [Result.bind_eq_ok] at h
    obtain ⟨valueType, hvalue, h⟩ := h
    cases h
    exact .leaf hresolve (said.retyped _ _ _ _ _) nofun nofun
      fun _ => ⟨valueType, rfl, mapValueType_isScalar hvalue⟩
  | cons g gs =>
    cases h
    exact .object hresolve said hkind hwalk nofun

/-- The field of a property has one of the three forms. -/
theorem field_spec {required : Bool} {f : Field}
    (h : x.field nested path name required node = .ok (some f)) :
    x.FieldOf nested path name node f := by
  simp only [field, Result.bind_eq_ok] at h
  obtain ⟨⟨found, n⟩, hresolve, h⟩ := h
  cases found with
  | none => cases h
  | some schema =>
    simp only [Result.bind_eq_ok] at h
    obtain ⟨type, -, info, hinfo, h⟩ := h
    obtain ⟨said, hkind, hitemType⟩ := fieldInfo_spec hinfo
    have hleaf : info.kind ≠ .object → info.kind ≠ .map →
        x.FieldOf nested path name node (.leaf info) := fun hne hnotMap =>
      .leaf hresolve said hne (by simp [hitemType]) fun hmap => absurd hmap hnotMap
    cases htype : info.type with
    | string =>
      simp only [htype, Result.bind_eq_ok] at h
      obtain ⟨enum, -, h⟩ := h
      cases h
      exact .leaf hresolve (said.retyped _ _ _ _ _) (by simp [hkind, htype, AttrKind.ofType])
        (by simp [hitemType]) (by simp [hkind, htype, AttrKind.ofType])
    | integer | boolean | number =>
      simp only [htype, Except.ok.injEq, Option.some.injEq] at h
      exact h ▸ hleaf (by simp [hkind, htype, AttrKind.ofType])
        (by simp [hkind, htype, AttrKind.ofType])
    | array =>
      simp only [htype] at h
      exact arrayField_spec hresolve said h
    | object =>
      simp only [htype, Result.bind_eq_ok, Except.ok.injEq, Option.some.injEq] at h
      obtain ⟨g, hobject, rfl⟩ := h
      exact objectField_spec hresolve said (by rw [hkind, htype, AttrKind.ofType]) hobject
    | unknown =>
      simp only [htype, Result.bind_eq_ok] at h
      obtain ⟨_, -, h⟩ := h
      cases h

/-! ## One level -/

/--
One level of the walk: fields of properties of a schema, in the order of their names, each of which
is there once if it is a text. Those that the policy excludes are not among them.
-/
inductive LevelOf (x : Extractor) (nested : Nested) (path : Scalar) (node : Value) :
    List Field → Prop where
  | nothing : LevelOf x nested path node []
  | fields {schema n fields} (hresolve : x.document.resolve node = .ok ⟨some schema, n⟩)
      (orderly : Field.Orderly fields)
      (made : ∀ f ∈ fields, ∃ name inner, x.document.HasProperty schema name inner ∧
        x.FieldOf nested (dotted path name) name inner f)
      (allowed : ∀ f ∈ fields, x.policy.excludes f.name (dotted path f.name) = false) :
      LevelOf x nested path node fields

theorem FieldOf.name_eq {f : Field} (hof : x.FieldOf nested path name node f) : f.name = name := by
  cases hof with
  | leaf _ said => exact said.name
  | items _ said => exact said.name
  | object _ said => exact said.name

theorem extended_eq_ok {inner : Scalar} (h : extended path name = .ok inner) :
    inner = dotted path name := by
  unfold extended at h
  split at h
  · exact (Except.ok.inj h).symm
  · cases h

/-- The first of some properties has a field, unless it is excluded, and the others have theirs. -/
theorem fieldsAmong_cons {required : List Scalar} {rest : Members} {fields : List Field}
    (h : x.fieldsAmong nested path required ((name, node) :: rest) = .ok fields) :
    ∃ first others, (x.policy.excludes name (dotted path name) = true → first = none) ∧
      (x.policy.excludes name (dotted path name) = false →
        x.field nested (dotted path name) name (name.isAmong required) node = .ok first) ∧
      x.fieldsAmong nested path required rest = .ok others ∧ fields = first.toList ++ others := by
  rw [fieldsAmong, Result.bind_eq_ok] at h
  obtain ⟨inner, hextended, h⟩ := h
  cases extended_eq_ok hextended
  split at h
  · rename_i hexcluded
    simp only [Result.bind_eq_ok, Except.ok.injEq, exists_eq_left'] at h
    obtain ⟨_, -, others, hothers, h⟩ := h
    exact ⟨none, others, fun _ => rfl, fun hallowed => by simp [hexcluded] at hallowed, hothers,
      h.symm⟩
  · rename_i hallowed
    simp only [Result.bind_eq_ok, Except.ok.injEq] at h
    obtain ⟨first, hfirst, others, hothers, h⟩ := h
    exact ⟨first, others, fun hexcluded => absurd hexcluded hallowed, fun _ => hfirst, hothers,
      h.symm⟩

theorem fieldsAmong_names {required : List Scalar} {members : Members} :
    ∀ {fields : List Field}, x.fieldsAmong nested path required members = .ok fields →
      (Field.names fields).Sublist (members.map Prod.fst) := by
  induction members with
  | nil =>
    intro fields h
    cases h
    exact .slnil
  | cons m rest ih =>
    obtain ⟨name, inner⟩ := m
    intro fields h
    obtain ⟨first, others, hexcluded, hfirst, hothers, rfl⟩ := fieldsAmong_cons h
    cases first with
    | none => exact (ih hothers).cons _
    | some f =>
      have hallowed : x.policy.excludes name (dotted path name) = false :=
        Bool.eq_false_iff.2 fun hexcludes => nomatch hexcluded hexcludes
      rw [List.map_cons, ← (field_spec (hfirst hallowed)).name_eq]
      exact (ih hothers).cons_cons _

/-- Each field is that of a property that the policy does not exclude. -/
theorem fieldsAmong_made {required : List Scalar} {members : Members} :
    ∀ {fields : List Field}, x.fieldsAmong nested path required members = .ok fields →
      ∀ f ∈ fields, x.policy.excludes f.name (dotted path f.name) = false ∧
        ∃ inner, (f.name, inner) ∈ members ∧
          x.field nested (dotted path f.name) f.name (f.name.isAmong required) inner =
            .ok (some f) := by
  induction members with
  | nil =>
    intro fields h f hf
    cases h
    cases hf
  | cons m rest ih =>
    obtain ⟨name, inner⟩ := m
    intro fields h f hf
    obtain ⟨first, others, hexcluded, hfirst, hothers, rfl⟩ := fieldsAmong_cons h
    rcases List.mem_append.1 hf with hf | hf
    · cases Option.mem_toList.1 hf
      have hallowed : x.policy.excludes name (dotted path name) = false :=
        Bool.eq_false_iff.2 fun hexcludes => nomatch hexcluded hexcludes
      have hfield := hfirst hallowed
      cases (field_spec hfield).name_eq
      exact ⟨hallowed, inner, List.mem_cons_self, hfield⟩
    · obtain ⟨hallowed, inner', hmem, hfield⟩ := ih hothers f hf
      exact ⟨hallowed, inner', List.mem_cons_of_mem _ hmem, hfield⟩

theorem withoutIdentifier_sublist {members : Members} :
    ∀ {kept : Members}, x.withoutIdentifier members = .ok kept → kept.Sublist members := by
  induction members with
  | nil =>
    intro kept h
    cases h
    exact .slnil
  | cons m rest ih =>
    intro kept h
    simp only [withoutIdentifier, Result.bind_eq_ok] at h
    obtain ⟨lower, -, others, hothers, h⟩ := h
    cases h
    split
    · exact (ih hothers).cons _
    · exact (ih hothers).cons_cons _

/-- Fields that are named by some of the names that were sorted are orderly. -/
theorem orderly_of_sorted {members sorted : Members}
    (hsorted : sortOnKey (·.1) members = .ok sorted)
    (hdistinct : (textNames members).Nodup) {fields : List Field}
    (hnames : (Field.names fields).Sublist (sorted.map Prod.fst)) : Field.Orderly fields := by
  have hperm := sortOnKey_perm hsorted
  unfold sortOnKey at hsorted
  split at hsorted
  · rename_i hcomparable
    cases hsorted
    rintro ⟨f, hf, htext⟩
    -- One name that is a text makes all that it was compared with texts.
    have hmem := hnames.subset (List.mem_map_of_mem hf)
    have hall := Scalar.isText_of_allComparable hcomparable
      ((hperm.map Prod.fst).mem_iff.1 hmem) htext
    have hmembers : ∀ m ∈ members, m.1.isText = true :=
      fun m hm => hall m.1 (List.mem_map_of_mem hm)
    refine ⟨fun g hg => ?_, (precedes_sortedBy hmembers hdistinct).sublist hnames⟩
    obtain ⟨m, hm, hname⟩ := List.mem_map.1 (hnames.subset (List.mem_map_of_mem hg))
    exact hname ▸ hmembers m (hperm.mem_iff.1 hm)
  · cases hsorted

/-- A node leads nowhere, or its fields are those of its properties, or of all but some. -/
theorem fieldsOf_cases {skip : Bool} {fields : List Field}
    (h : x.fieldsOf nested skip path node = .ok fields) :
    fields = [] ∨ ∃ schema n collected sorted kept,
      x.document.resolve node = .ok ⟨some schema, n⟩ ∧
      Schema.properties x.document schema = .ok collected ∧
      sortOnKey (·.1) collected.1 = .ok sorted ∧ kept.Sublist sorted ∧
      x.fieldsAmong nested path collected.2 kept = .ok fields := by
  simp only [fieldsOf, Result.bind_eq_ok] at h
  obtain ⟨⟨found, n⟩, hresolve, h⟩ := h
  cases found with
  | none =>
    cases h
    exact .inl rfl
  | some schema =>
    simp only [Result.bind_eq_ok] at h
    obtain ⟨collected, hcollected, sorted, hsorted, h⟩ := h
    refine .inr ⟨schema, n, collected, sorted, ?_⟩
    split at h
    · obtain ⟨kept, hkept, h⟩ := Result.bind_eq_ok.1 h
      exact ⟨kept, hresolve, hcollected, hsorted, withoutIdentifier_sublist hkept, h⟩
    · exact ⟨sorted, hresolve, hcollected, hsorted, .refl _, h⟩

theorem fieldsOf_spec {skip : Bool} {fields : List Field}
    (h : x.fieldsOf nested skip path node = .ok fields) : x.LevelOf nested path node fields := by
  obtain rfl | ⟨schema, n, collected, sorted, kept, hresolve, hcollected, hsorted, hsublist, h⟩ :=
    fieldsOf_cases h
  · exact .nothing
  · obtain ⟨hdistinct, hproperty⟩ := Schema.properties_spec hcollected
    have hnames := (fieldsAmong_names h).trans (hsublist.map Prod.fst)
    refine .fields hresolve (orderly_of_sorted hsorted hdistinct hnames) (fun f hf => ?_)
      fun f hf => (fieldsAmong_made h f hf).1
    obtain ⟨-, inner, hmem, hfield⟩ := fieldsAmong_made h f hf
    exact ⟨f.name, inner, hproperty _ _ ((sortOnKey_perm hsorted).subset (hsublist.subset hmem)),
      field_spec hfield⟩

/-- Each field of a node is that of a property that was collected for it. -/
theorem fieldsOf_made {skip : Bool} {fields : List Field}
    (h : x.fieldsOf nested skip path node = .ok fields) :
    ∀ f ∈ fields, ∃ schema n collected inner, x.document.resolve node = .ok ⟨some schema, n⟩ ∧
      Schema.properties x.document schema = .ok collected ∧ (f.name, inner) ∈ collected.1 ∧
      x.field nested (dotted path f.name) f.name (f.name.isAmong collected.2) inner =
        .ok (some f) := by
  intro f hf
  obtain rfl | ⟨schema, n, collected, sorted, kept, hresolve, hcollected, hsorted, hsublist, h⟩ :=
    fieldsOf_cases h
  · cases hf
  · obtain ⟨-, inner, hmem, hfield⟩ := fieldsAmong_made h f hf
    exact ⟨schema, n, collected, inner, hresolve, hcollected,
      (sortOnKey_perm hsorted).subset (hsublist.subset hmem), hfield⟩

/-- What no fields have, and the fields of a node if those of the next level do, a walk has. -/
theorem walkFrom_levels {G : Scalar → Value → List Field → Prop} (nil : ∀ path node, G path node [])
    (step : ∀ nested skip path node fields,
      (∀ path node fields, nested path node = .ok fields → G path node fields) →
      x.fieldsOf nested skip path node = .ok fields → G path node fields)
    {skip : Bool} {depth : Int} {fields : List Field}
    (h : x.walkFrom skip depth path node = .ok fields) : G path node fields := by
  have hwalk : ∀ levels path node fields,
      x.walk levels path node = .ok fields → G path node fields := by
    intro levels
    induction levels with
    | zero =>
      intro path node fields h
      cases h
      exact nil path node
    | succ levels ih =>
      intro path node fields h
      exact step _ _ path node fields ih h
  unfold walkFrom at h
  split at h
  · cases h
    exact nil path node
  · exact step _ _ path node fields (hwalk _) h

/-- What each level of a walk has, if the next one has it, the whole walk has. -/
theorem walkFrom_induction {G : Scalar → Value → List Field → Prop}
    (step : ∀ nested path node fields,
      (∀ path node fields, nested path node = .ok fields → G path node fields) →
      x.LevelOf nested path node fields → G path node fields)
    {skip : Bool} {depth : Int} {fields : List Field}
    (h : x.walkFrom skip depth path node = .ok fields) : G path node fields :=
  walkFrom_levels
    (fun path node => step (fun _ _ => .error .wrongShape) path node [] nofun .nothing)
    (fun nested _ path node fields inner hfields =>
      step nested path node fields inner (fieldsOf_spec hfields)) h

/-- What each level of a walk has, if the next one has it, all that is extracted has. -/
theorem extract_induction {G : Scalar → Value → List Field → Prop}
    (step : ∀ nested path node fields,
      (∀ path node fields, nested path node = .ok fields → G path node fields) →
      x.LevelOf nested path node fields → G path node fields)
    {fields : List Field} (h : x.extract node = .ok fields) : G (.text "") node fields :=
  walkFrom_induction step h

/-- A step through a field leads among no fields, or among those of the node that it reaches. -/
theorem FieldOf.inside_eq {f : Field} (hof : x.FieldOf nested path name node f)
    (step : Field.Step) : step.inside f = [] ∨ ∃ v, x.document.inside? step node = some v ∧
      nested path v = .ok (step.inside f) := by
  cases hof with
  | leaf => cases step <;> exact .inl rfl
  | items hresolve _ _ _ _ hwalk =>
    cases step with
    | object n => exact .inl rfl
    | items n =>
      refine .inr ⟨_, ?_, hwalk⟩
      rw [Document.inside?, Document.schemaAt?_eq hresolve]
      rfl
  | object _ _ _ hwalk =>
    cases step with
    | object n => exact .inr ⟨_, rfl, hwalk⟩
    | items n => exact .inl rfl

/-- A step through a field leads to nothing, or to what a walk on from its path gives. -/
theorem FieldOf.inside {f : Field} (hof : x.FieldOf nested path name node f) (step : Field.Step) :
    step.inside f = [] ∨ ∃ v, nested path v = .ok (step.inside f) :=
  (hof.inside_eq step).imp_right fun ⟨v, _, hwalk⟩ => ⟨v, hwalk⟩

theorem FieldOf.everywhere {P : Field → Prop} {f : Field} (hof : x.FieldOf nested path name node f)
    (here : P f) (item : ∀ i, f.item = some i → P i)
    (inner : ∀ path v fields, (x.document.Schema node → x.document.Schema v) →
      nested path v = .ok fields → ∀ g ∈ fields, Field.Everywhere P g) :
    Field.Everywhere P f := by
  cases hof with
  | leaf => exact .intro here nofun (by simp [Field.leaf])
  | items hresolve _ _ _ _ hwalk =>
    refine .intro here ?_ (by simp)
    intro i hi
    cases hi
    exact .intro (item _ rfl) nofun (inner _ _ _ (fun h => .items h hresolve) hwalk)
  | object _ _ _ hwalk => exact .intro here nofun (inner _ _ _ id hwalk)

/-! ## What is extracted -/

end Extractor

namespace Field

/-- A field in the form that schemas give: with parts that fit, and no name for its struct. -/
structure Shaped (f : Field) : Prop where
  fits : f.Fits
  unnamed : f.attrTypeRef = ""

/-- The item schema of a field says nothing but where it came from. -/
def PlainItem (f : Field) : Prop := ∀ i, f.item = some i →
  i.toFieldInfo = { name := .text "", type := .object, refName := i.refName }

/-- A field of which only its schema says something. -/
structure Untouched (f : Field) : Prop where
  noPathParam : f.isPathParam = false
  serverComputed : f.serverComputed = false
  forceNew : f.forceNew = false
  useStateForUnknown : f.useStateForUnknown = false

/-- The names inside a field are sound. -/
structure SoundNames (f : Field) : Prop where
  refName : Unmarked f.refName
  properties : ∀ g ∈ f.properties, g.name.Sound

end Field

namespace Extractor

open ApiModels.Field (DistinctTexts Everywhere Orderly SoundNames Untouched)

variable {x : Extractor} {nested : Nested} {path name : Scalar} {node : Value}

theorem FieldOf.shaped {f : Field} (hof : x.FieldOf nested path name node f) :
    f.Shaped ∧ f.PlainItem := by
  cases hof with
  | leaf _ said _ htype =>
    exact ⟨⟨⟨by simpa [Field.leaf] using htype, nofun, by simp [Field.leaf]⟩, said.unnamed⟩, nofun⟩
  | items _ said hkind htype =>
    refine ⟨⟨⟨by simp [hkind, htype], ?_, by simp⟩, said.unnamed⟩, ?_⟩ <;>
    · intro i hi
      cases hi
      rfl
  | object _ said hkind =>
    exact ⟨⟨⟨by simp [hkind, AttrKind.isSequence], nofun, fun _ => hkind⟩, said.unnamed⟩, nofun⟩

/-- The item schema of a field of the walk is made from the fields of the items. -/
theorem FieldOf.item_eq {f i : Field} (hof : x.FieldOf nested path name node f)
    (hi : f.item = some i) :
    ∃ schema n inner refName fields, x.document.resolve node = .ok ⟨some schema, n⟩ ∧
      x.document.resolve (schema.get "items") = .ok ⟨some inner, refName⟩ ∧
      nested path (schema.get "items") = .ok fields ∧ i = itemField refName fields := by
  cases hof with
  | leaf => cases hi
  | items hresolve _ _ _ hitems hwalk =>
    cases hi
    exact ⟨_, _, _, _, _, hresolve, hitems, hwalk, rfl⟩
  | object => cases hi

theorem walkFrom_shaped {skip : Bool} {depth : Int} {fields : List Field}
    (h : x.walkFrom skip depth path node = .ok fields) :
    ∀ f ∈ fields, Everywhere (fun f => f.Shaped ∧ f.PlainItem) f := by
  refine walkFrom_induction (G := fun _ _ fields =>
    ∀ f ∈ fields, Everywhere (fun f => f.Shaped ∧ f.PlainItem) f) ?_ h
  intro nested path node fields inner hlevel f hf
  cases hlevel with
  | nothing => cases hf
  | fields _ _ made _ =>
    obtain ⟨name, v, -, hof⟩ := made f hf
    refine hof.everywhere hof.shaped ?_ fun path v fields _ hwalk => inner path v fields hwalk
    intro i hi
    obtain ⟨_, _, _, _, _, -, -, -, rfl⟩ := hof.item_eq hi
    exact ⟨⟨⟨by simp [itemField, AttrKind.ofType, AttrKind.isSequence], nofun, fun _ => rfl⟩, rfl⟩,
      nofun⟩

theorem extract_shaped {fields : List Field} (h : x.extract node = .ok fields) :
    ∀ f ∈ fields, Everywhere (fun f => f.Shaped ∧ f.PlainItem) f :=
  walkFrom_shaped h

theorem extract_untouched (hoverrides : x.policy.overrides = []) {fields : List Field}
    (h : x.extract node = .ok fields) : ∀ f ∈ fields, Everywhere Untouched f := by
  refine extract_induction (G := fun _ _ fields => ∀ f ∈ fields, Everywhere Untouched f) ?_ h
  intro nested path node fields inner hlevel f hf
  cases hlevel with
  | nothing => cases hf
  | fields _ _ made _ =>
    obtain ⟨name, v, -, hof⟩ := made f hf
    have huntouched : ∀ {schema n info}, x.Said schema name n info → ∀ item properties,
        Untouched ⟨info, item, properties⟩ := by
      intro schema n info said item properties
      obtain ⟨hcomputed, hforce, hstate⟩ := said.untouched hoverrides
      exact ⟨said.noPathParam, hcomputed, hforce, hstate⟩
    refine hof.everywhere ?_ ?_ fun path v fields _ hwalk => inner path v fields hwalk
    · cases hof with
      | leaf _ said => exact huntouched said _ _
      | items _ said => exact huntouched said _ _
      | object _ said => exact huntouched said _ _
    · intro i hi
      obtain ⟨_, _, _, _, _, -, -, -, rfl⟩ := hof.item_eq hi
      exact ⟨rfl, rfl, rfl, rfl⟩

/-- Each level of what is extracted is in the order of its names. -/
theorem extract_orderly {fields : List Field} (h : x.extract node = .ok fields) :
    Orderly fields ∧ ∀ f ∈ fields, Everywhere (fun f => Orderly f.properties) f := by
  refine extract_induction (G := fun _ _ fields => Orderly fields ∧
    ∀ f ∈ fields, Everywhere (fun f => Orderly f.properties) f) ?_ h
  intro nested path node fields inner hlevel
  cases hlevel with
  | nothing => exact ⟨Field.orderly_nil, nofun⟩
  | fields _ orderly made _ =>
    refine ⟨orderly, fun f hf => ?_⟩
    obtain ⟨name, v, -, hof⟩ := made f hf
    refine hof.everywhere ?_ ?_ fun path v fields _ hwalk => (inner path v fields hwalk).2
    · cases hof with
      | leaf => exact Field.orderly_nil
      | items => exact Field.orderly_nil
      | object _ _ _ hwalk => exact (inner _ _ _ hwalk).1
    · intro i hi
      obtain ⟨_, _, _, _, _, -, -, hwalk, rfl⟩ := hof.item_eq hi
      exact (inner _ _ _ hwalk).1

theorem extract_distinct {fields : List Field} (h : x.extract node = .ok fields) :
    DistinctTexts fields ∧ ∀ f ∈ fields, Everywhere (fun f => DistinctTexts f.properties) f := by
  obtain ⟨horderly, hinside⟩ := extract_orderly h
  exact ⟨horderly.distinct, fun f hf => (hinside f hf).imp fun _ => Field.Orderly.distinct⟩

/-- What holds of the names of properties in the document holds of the names that are extracted. -/
theorem extract_named {N : Scalar → Prop} (hnames : x.document.NamesAre N) {fields : List Field}
    (hnode : x.document.Schema node) (h : x.extract node = .ok fields) :
    ∀ f ∈ fields, N f.name ∧ Everywhere (fun f => ∀ g ∈ f.properties, N g.name) f := by
  refine extract_induction (G := fun _ node fields => x.document.Schema node →
    ∀ f ∈ fields, N f.name ∧ Everywhere (fun f => ∀ g ∈ f.properties, N g.name) f) ?_ h hnode
  intro nested path node fields inner hlevel hnode f hf
  cases hlevel with
  | nothing => cases hf
  | fields hresolve _ made _ =>
    obtain ⟨name, v, hproperty, hof⟩ := made f hf
    have hv : x.document.Schema v := .property hnode hresolve hproperty
    refine ⟨hof.name_eq ▸ hnames node _ _ hnode hresolve name v hproperty, hof.everywhere ?_ ?_
      fun path v' fields hv' hwalk g hg => (inner path v' fields hwalk (hv' hv) g hg).2⟩
    · cases hof with
      | leaf => exact nofun
      | items => exact nofun
      | object _ _ _ hwalk => exact fun g hg => (inner _ _ _ hwalk hv g hg).1
    · intro i hi
      obtain ⟨_, _, _, _, _, hresolve, -, hwalk, rfl⟩ := hof.item_eq hi
      exact fun g hg => (inner _ _ _ hwalk (.items hv hresolve) g hg).1

/-- The references that led to what is extracted are references in the document. -/
theorem extract_unmarked (hsound : x.document.NamesSound) {fields : List Field}
    (hnode : x.document.Schema node) (h : x.extract node = .ok fields) :
    ∀ f ∈ fields, Everywhere (fun f => Unmarked f.refName) f := by
  refine extract_induction (G := fun _ node fields => x.document.Schema node →
    ∀ f ∈ fields, Everywhere (fun f => Unmarked f.refName) f) ?_ h hnode
  intro nested path node fields inner hlevel hnode f hf
  cases hlevel with
  | nothing => cases hf
  | fields hresolve _ made _ =>
    obtain ⟨name, v, hproperty, hof⟩ := made f hf
    have hv : x.document.Schema v := .property hnode hresolve hproperty
    have href := (hsound.property node _ _ hnode hresolve name v hproperty).2
    refine hof.everywhere ?_ ?_ fun path v' fields hv' hwalk =>
      inner path v' fields hwalk (hv' hv)
    · cases hof with
      | leaf hresolve said => exact said.refName ▸ href _ _ hresolve
      | items hresolve said => exact said.refName ▸ href _ _ hresolve
      | object hresolve said => exact said.refName ▸ href _ _ hresolve
    · intro i hi
      obtain ⟨_, _, _, _, _, hresolve, hitems, -, rfl⟩ := hof.item_eq hi
      exact hsound.items v _ _ hv hresolve _ _ hitems

/-- The names of what is extracted are names in the document. -/
theorem extract_names (hsound : x.document.NamesSound) {fields : List Field}
    (hnode : x.document.Schema node) (h : x.extract node = .ok fields) :
    ∀ f ∈ fields, f.name.Sound ∧ Everywhere SoundNames f := by
  intro f hf
  obtain ⟨hname, hinside⟩ := extract_named hsound.namesAre hnode h f hf
  exact ⟨hname, ((extract_unmarked hsound hnode h f hf).and hinside).imp fun _ hg => ⟨hg.1, hg.2⟩⟩

end Extractor

end ApiModels
