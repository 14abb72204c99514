/-
ApiModels.Proofs.Extract.Composed — what is extracted from nodes that are
composed of others.

A node is composed of parts by `allOf`, and of alternatives by `oneOf` and
`anyOf`. Its type is looked for in all three, along the first ones, on a
number of levels. Its properties are its own and those that its parts state
themselves, and nothing else: not what the parts of a part state, and not what
an alternative states.

So a node that has one part only has the fields of the part but for those that
the part has by parts of its own (`Extractor.walkFrom_wrapped`). And a property
that is a union of objects is of the type object, as its first alternative
shows, but a map, as it has no fields (`Extractor.fieldAt_union`).
-/
import ApiModels.Field.Document
import ApiModels.Proofs.Document.Reference
import ApiModels.Proofs.Value.Reading

namespace ApiModels

/-! ## Members without one of them -/

/-- Members without those of a name. -/
def Members.without (ms : Members) (key : String) : Members :=
  List.filter (fun m => !m.1.same (.text key)) ms

theorem Members.get?_without_self (ms : Members) (key : String) :
    (ms.without key).get? key = none := by
  rw [get?, lookup, without, Option.map_eq_none_iff, List.find?_eq_none]
  intro m hm
  simpa using List.of_mem_filter hm

theorem Members.get?_without {key other : String} (hne : other ≠ key) (ms : Members) :
    (ms.without key).get? other = ms.get? other := by
  have hsame : ∀ m : Scalar × Value,
      decide ((!m.1.same (.text key)) = true ∧ m.1.same (.text other) = true) =
        m.1.same (.text other) := by
    intro m
    cases hother : m.1.same (.text other) with
    | false => simp
    | true => simp [Scalar.same_text_iff.1 hother, hne]
  simp only [get?, lookup, without, List.find?_filter, hsame]

theorem Members.get_without {key other : String} (hne : other ≠ key) (ms : Members) :
    (ms.without key).get other = ms.get other := by
  rw [get, get?_without hne, get]

theorem Members.get_without_self (ms : Members) (key : String) :
    (ms.without key).get key = .null := by
  rw [get, get?_without_self]
  rfl

/-! ## Parts -/

/-- A node that is composed of one part and says nothing else. -/
def Value.wrapped (part : Value) : Value := .record [("allOf", .list [part])]

namespace Schema

variable {d : Document} {node : Value} {schema : Members} {n : String}

/-- Parts that are not given add nothing. -/
theorem properties_of_no_parts (h : (schema.get "allOf").given = false) :
    properties d schema = properties d (schema.without "allOf") := by
  have hparts : (schema.get "allOf").itemsOrNone = Value.null.itemsOrNone := by
    rw [Value.itemsOrNone, h]
    rfl
  rw [properties, properties, hparts, Members.get_without (by decide),
    Members.get_without (by decide), Members.get_without_self]

/-- A part hands on the properties and the required names that it states itself. -/
theorem properties_wrapped (hresolve : d.resolve node = .ok ⟨some schema, n⟩)
    (hproperties : (schema.get "properties").Optionally Value.IsObject) :
    properties d [(.text "allOf", .list [node])] = properties d (schema.without "allOf") := by
  have hown : (schema.get "properties").association = (schema.get "properties").membersOrNone :=
    Value.association_eq hproperties
  have hleft : properties d [(.text "allOf", .list [node])] = addParts d [node] [] [] := rfl
  have hright : Value.null.itemsOrNone = .ok [] := rfl
  rw [hleft, properties, Members.get_without (by decide), Members.get_without (by decide),
    Members.get_without_self, hown, hright, addParts, hresolve]
  rfl

end Schema

namespace Extractor

variable {x : Extractor} {nested : Nested} {path name : Scalar} {node node' : Value}
  {schema schema' : Members} {n n' : String}

/-- Of the object that a node leads to a walk reads the properties alone. -/
theorem walkFrom_eq_of_properties (h : x.document.resolve node = .ok ⟨some schema, n⟩)
    (h' : x.document.resolve node' = .ok ⟨some schema', n'⟩)
    (hproperties : Schema.properties x.document schema = Schema.properties x.document schema')
    (skip : Bool) (depth : Int) (path : Scalar) :
    x.walkFrom skip depth path node = x.walkFrom skip depth path node' := by
  unfold walkFrom fieldsOf
  rw [h, h']
  simp only [bind, Except.bind, hproperties]

theorem resolve_without (hresolve : x.document.resolve node = .ok ⟨some schema, n⟩) :
    x.document.resolve (.object (schema.without "allOf")) =
      .ok ⟨some (schema.without "allOf"), ""⟩ := by
  refine Document.resolve_end rfl ?_
  rw [Members.get?_without (by decide), Document.end_of_resolve hresolve]

theorem walkFrom_empty (skip : Bool) (depth : Int) (path : Scalar) :
    x.walkFrom skip depth path (.object []) = .ok [] := by
  unfold walkFrom
  split
  · rfl
  · cases skip && depth == 0 <;> rfl

/--
A node with one part has the fields that its part has without parts of its own. So it has all
fields of a part that is not composed itself, and no field of a part that says nothing but what it
is composed of.
-/
theorem walkFrom_wrapped (x : Extractor)
    (hresolve : x.document.resolve node = .ok ⟨some schema, n⟩)
    (hproperties : (schema.get "properties").Optionally Value.IsObject)
    (skip : Bool) (depth : Int) (path : Scalar) :
    x.walkFrom skip depth path (.wrapped node) =
        x.walkFrom skip depth path (.object (schema.without "allOf")) ∧
      ((schema.get "allOf").given = false →
        x.walkFrom skip depth path (.wrapped node) = x.walkFrom skip depth path node) ∧
      x.walkFrom skip depth path (.wrapped (.wrapped node)) = .ok [] := by
  have hwrapped : ∀ v, x.document.resolve (Value.wrapped v) =
      .ok ⟨some [(.text "allOf", .list [v])], ""⟩ := fun _ => rfl
  have hpart := Schema.properties_wrapped hresolve hproperties
  refine ⟨?_, fun hno => ?_, ?_⟩
  · exact walkFrom_eq_of_properties (hwrapped node) (resolve_without hresolve) hpart skip depth path
  · exact walkFrom_eq_of_properties (hwrapped node) hresolve
      (hpart.trans (Schema.properties_of_no_parts hno).symm) skip depth path
  · rw [← walkFrom_empty skip depth path]
    exact walkFrom_eq_of_properties (hwrapped _) rfl
      (Schema.properties_wrapped (hwrapped node) nofun) skip depth path

/-! ## A machine with limits

Its limits are declared in the document, and it has them by a part that refers to them.
-/

namespace Sample

/-- What limits are: a number of cores. -/
def declaredLimits : Members :=
  [(.text "properties", .record [("cores", .record [("type", .text "integer")])]),
    (.text "required", .texts ["cores"])]

/-- A document that declares limits. -/
def limited : Extractor where
  document := ⟨[(.text "components", .record [("schemas", .record
    [("Limits", .object declaredLimits)])])], []⟩

def limits : Value := .record [("$ref", .text "#/components/schemas/Limits")]

/-- What a node has by a part, it has no more as a part of another one. -/
theorem limits_wrapped_twice :
    limited.document.resolve (.wrapped limits) =
      .ok ⟨some [(.text "allOf", .list [limits])], ""⟩ ∧
    (limited.walkFrom false 0 (.text "") (.wrapped limits)).map Field.names =
      .ok [.text "cores"] ∧
    limited.walkFrom false 0 (.text "") (.wrapped (.wrapped limits)) = .ok [] ∧
    limited.walkFrom false 0 (.text "") (.wrapped (.wrapped limits)) ≠
      limited.walkFrom false 0 (.text "") (.wrapped limits) := by
  have hnames : (limited.walkFrom false 0 (.text "") (.wrapped limits)).map Field.names =
      .ok [.text "cores"] := rfl
  have hnone : limited.walkFrom false 0 (.text "") (.wrapped (.wrapped limits)) = .ok [] := rfl
  refine ⟨rfl, hnames, hnone, fun heq => ?_⟩
  rw [← heq, hnone] at hnames
  cases hnames

end Sample

theorem walkFrom_wrapped_sample :
    Sample.limited.document.resolve Sample.limits = .ok ⟨some Sample.declaredLimits, "Limits"⟩ ∧
    (Members.get Sample.declaredLimits "properties").Optionally Value.IsObject ∧
    (Sample.limited.walkFrom false 0 (.text "") Sample.limits).map Field.names =
      .ok [.text "cores"] ∧
    Sample.limited.walkFrom false 0 (.text "") (.wrapped Sample.limits) =
      Sample.limited.walkFrom false 0 (.text "") Sample.limits := by
  have hresolve : Sample.limited.document.resolve Sample.limits =
      .ok ⟨some Sample.declaredLimits, "Limits"⟩ := rfl
  have hproperties : (Members.get Sample.declaredLimits "properties").Optionally Value.IsObject :=
    fun _ => ⟨_, rfl⟩
  have hwrapped := walkFrom_wrapped Sample.limited hresolve hproperties false 0 (.text "")
  exact ⟨hresolve, hproperties, rfl, hwrapped.2.1 rfl⟩

/-! ## Alternatives -/

end Extractor

/-- A node that is a union of some alternatives and says nothing else. -/
def Value.union (member : String) (alternatives : List Value) : Value :=
  .record [(member, .list alternatives)]

namespace Schema

variable {d : Document} {schema : Members} {t : SemanticType}

/-- What is found along one more alternative was found before, or nothing was. -/
theorem typeWithin_of_succ {levels : Nat} : ∀ {schema : Members},
    typeWithin d (levels + 1) schema = .ok t →
      typeWithin d levels schema = .ok t ∨ typeWithin d levels schema = .ok .unknown := by
  induction levels with
  | zero => exact fun _ => .inr rfl
  | succ levels ih =>
    intro schema h
    rw [typeWithin] at h ⊢
    split
    · rename_i declared hdeclared
      simp only [hdeclared] at h
      exact .inl h
    · rename_i hdeclared
      simp only [hdeclared] at h
      split
      · rename_i alternatives halternatives
        simp only [halternatives] at h
        obtain ⟨found, hfound, h⟩ := Result.bind_eq_ok.1 h
        rw [hfound]
        cases found with
        | none => exact .inl h
        | some alternative => exact ih h
      · rename_i halternatives
        simp only [halternatives] at h
        exact .inl h

end Schema

namespace Extractor

variable {x : Extractor} {nested : Nested} {path name : Scalar} {required : Bool} {node : Value}
  {schema : Members} {n member : String}

/-- The field of a property at a depth; what is nested in it lies one deeper. -/
def fieldAt (x : Extractor) (depth : Int) (path name : Scalar) (required : Bool) (node : Value) :
    Result (Option Field) :=
  x.field (x.walkFrom false (depth + 1)) path name required node

theorem fieldInfo_type {refName : String} {type : SemanticType} {info : FieldInfo}
    (h : x.fieldInfo path name required refName type schema = .ok info) :
    info.type = type.actual name.display := by
  simp only [fieldInfo, Result.bind_eq_ok] at h
  obtain ⟨_, -, _, -, _, -, h⟩ := h
  cases ho : x.policy.overrideAt? path <;> rw [ho] at h <;> cases h <;> rfl

theorem actual_of_ne_string {name : String} {type : SemanticType} (h : type ≠ .string) :
    type.actual name = type := by
  simp [SemanticType.actual, h]

theorem fieldInfo_object {refName : String} {info : FieldInfo}
    (h : x.fieldInfo path name required refName .object schema = .ok info) :
    info.type = .object ∧ info.kind = .object := by
  have htype : info.type = .object :=
    (fieldInfo_type h).trans (actual_of_ne_string (by decide))
  refine ⟨htype, ?_⟩
  rw [(fieldInfo_spec h).2.1, htype]
  rfl

theorem objectField_of_fields {info : FieldInfo} {fields : List Field}
    (hwalk : nested path node = .ok fields) (hfields : fields ≠ []) :
    x.objectField nested path info node schema =
      .ok { toFieldInfo := info, properties := fields } := by
  rw [objectField, hwalk]
  cases fields with
  | nil => exact absurd rfl hfields
  | cons f fs => rfl

/-- The field of a property whose schema is of the type object, with the fields nested in it. -/
theorem field_of_object (hresolve : x.document.resolve node = .ok ⟨some schema, n⟩)
    (htype : x.schemaType schema = .ok .object) {fields : List Field}
    (hwalk : nested path node = .ok fields) (hfields : fields ≠ []) :
    x.field nested path name required node =
      (x.fieldInfo path name required n .object schema).map fun info =>
        some { toFieldInfo := info, properties := fields } := by
  simp only [field, hresolve, htype, bind, Except.bind]
  cases hinfo : x.fieldInfo path name required n .object schema with
  | error e => rfl
  | ok info =>
    simp only [(fieldInfo_object hinfo).1, objectField_of_fields hwalk hfields]
    rfl

/-- A property of no known type has no field. -/
theorem field_of_unknown (hresolve : x.document.resolve node = .ok ⟨some schema, n⟩)
    (htype : x.schemaType schema = .ok .unknown) (f : Field) :
    x.field nested path name required node ≠ .ok (some f) := by
  intro h
  simp only [field, hresolve, htype, Result.bind_eq_ok, Except.ok.injEq, exists_eq_left'] at h
  obtain ⟨info, hinfo, h⟩ := h
  have hunknown : info.type = .unknown :=
    (fieldInfo_type hinfo).trans (actual_of_ne_string (by decide))
  simp only [hunknown, Result.bind_eq_ok] at h
  obtain ⟨_, -, h⟩ := h
  cases h

variable {alternatives : List Value}

/-- The members by which a node is a union. -/
def unions : List String := ["oneOf", "anyOf"]

theorem resolve_union (hmember : member ∈ unions) :
    x.document.resolve (.union member alternatives) =
      .ok ⟨some [(.text member, .list alternatives)], ""⟩ := by
  rcases List.mem_pair.1 hmember with rfl | rfl <;> rfl

theorem walkFrom_union (hmember : member ∈ unions) (skip : Bool) (depth : Int) (path : Scalar) :
    x.walkFrom skip depth path (.union member alternatives) = .ok [] := by
  have hproperties : Schema.properties x.document [(.text member, .list alternatives)] =
      Schema.properties x.document [] := by
    rcases List.mem_pair.1 hmember with rfl | rfl <;> rfl
  have hempty : x.document.resolve (.object []) = .ok ⟨some [], ""⟩ := rfl
  rw [walkFrom_eq_of_properties (resolve_union hmember) hempty hproperties, walkFrom_empty]

/-- A union is of the type that its first alternative has one level down. -/
theorem typeWithin_union {d : Document} (hmember : member ∈ unions)
    (hresolve : d.resolve node = .ok ⟨some schema, n⟩) (levels : Nat) (rest : List Value) :
    Schema.typeWithin d (levels + 1) [(.text member, .list (node :: rest))] =
      Schema.typeWithin d levels schema := by
  have hdeclared : Schema.declaredType? [(.text member, .list (node :: rest))] = none := by
    rcases List.mem_pair.1 hmember with rfl | rfl <;> rfl
  have halternatives : Schema.alternatives? [(.text member, .list (node :: rest))] =
      some (.list (node :: rest)) := by
    rcases List.mem_pair.1 hmember with rfl | rfl <;> rfl
  have hfirst : Schema.firstAlternative d (.list (node :: rest)) = .ok (some schema) := by
    rw [Schema.firstAlternative]
    show (d.resolve node >>= fun r => .ok r.node) = _
    rw [hresolve]
    rfl
  rw [Schema.typeWithin, hdeclared, halternatives]
  simp only [hfirst]
  rfl

/-- A union has no properties: it becomes a map of texts, if its first alternative is an object. -/
theorem field_of_union (hmember : member ∈ unions)
    (hwalk : nested path (.union member alternatives) = .ok [])
    (htype : x.schemaType [(.text member, .list alternatives)] = .ok .object) :
    ∃ info, x.field nested path name required (.union member alternatives) =
        .ok (some (.leaf info)) ∧
      info.name = name ∧ info.type = .object ∧ info.kind = .map ∧ info.itemType = some .string := by
  obtain ⟨info, hinfo⟩ : ∃ info, x.fieldInfo path name required "" .object
      [(.text member, .list alternatives)] = .ok info := by
    rcases List.mem_pair.1 hmember with rfl | rfl <;> exact ⟨_, rfl⟩
  have hobject := (fieldInfo_object hinfo).1
  have hvalues : x.mapValueType info.name [(.text member, .list alternatives)] = .ok .string := by
    rcases List.mem_pair.1 hmember with rfl | rfl <;> rfl
  refine ⟨{ info with kind := .map, itemType := some .string }, ?_, (fieldInfo_spec hinfo).1.name,
    hobject, rfl, rfl⟩
  simp only [field, resolve_union hmember, htype, hinfo, hobject, objectField, hwalk, hvalues, bind,
    Except.bind]

/--
A union of an object with fields is of the type object, as the object is, but it has no fields: it
becomes a map of texts. If the type of the object itself shows on the last level only, that of the
union does not show, and the property has no field.
-/
theorem fieldAt_union (x : Extractor) (hmember : member ∈ unions)
    (hresolve : x.document.resolve node = .ok ⟨some schema, n⟩)
    (htype : x.schemaType schema = .ok .object) (depth : Int) {fields : List Field}
    (hwalk : x.walkFrom false (depth + 1) path node = .ok fields) (hfields : fields ≠ [])
    (rest : List Value) (name : Scalar) (required : Bool) :
    (x.fieldAt depth path name required node =
        (x.fieldInfo path name required n .object schema).map fun info =>
          some { toFieldInfo := info, properties := fields }) ∧
    (∀ info, x.fieldInfo path name required n .object schema = .ok info → info.kind = .object) ∧
    (Schema.typeWithin x.document (x.maxDepth + 1).toNat schema = .ok .object →
      ∃ info, x.fieldAt depth path name required (.union member (node :: rest)) =
          .ok (some (.leaf info)) ∧
        info.name = name ∧ info.type = .object ∧ info.kind = .map ∧
        info.itemType = some .string) ∧
    (Schema.typeWithin x.document (x.maxDepth + 1).toNat schema ≠ .ok .object →
      ∀ f, x.fieldAt depth path name required (.union member (node :: rest)) ≠ .ok (some f)) := by
  obtain ⟨levels, hlevels⟩ : ∃ levels, (x.maxDepth + 2).toNat = levels + 1 := by
    cases hlevels : (x.maxDepth + 2).toNat with
    | zero =>
      rw [schemaType, hlevels] at htype
      cases htype
    | succ levels => exact ⟨levels, rfl⟩
  have hunion : x.schemaType [(.text member, .list (node :: rest))] =
      Schema.typeWithin x.document (x.maxDepth + 1).toNat schema := by
    have hdown : (x.maxDepth + 1).toNat = levels := by omega
    rw [schemaType, hlevels, typeWithin_union hmember hresolve, hdown]
  refine ⟨field_of_object hresolve htype hwalk hfields,
    fun info hinfo => (fieldInfo_object hinfo).2, fun hbefore => ?_, fun hbefore f => ?_⟩
  · exact field_of_union hmember (walkFrom_union hmember _ _ _) (hunion.trans hbefore)
  · have hunknown : Schema.typeWithin x.document (x.maxDepth + 1).toNat schema = .ok .unknown := by
      rw [schemaType, hlevels] at htype
      have hdown : (x.maxDepth + 1).toNat = levels := by omega
      rw [hdown] at hbefore ⊢
      exact (Schema.typeWithin_of_succ htype).resolve_left hbefore
    exact field_of_unknown (resolve_union hmember) (hunion.trans hunknown) f

namespace Sample

/-- A property that is one of some limits is an object by its type, and a map by its kind. -/
theorem limits_mapped :
    limited.document.resolve limits = .ok ⟨some declaredLimits, "Limits"⟩ ∧
    limited.schemaType declaredLimits = .ok .object ∧
    (limited.walkFrom false 1 (.text "limits") limits).map Field.names = .ok [.text "cores"] ∧
    ∃ f, limited.fieldAt 0 (.text "limits") (.text "limits") false (.union "oneOf" [limits]) =
        .ok (some f) ∧
      f.type = .object ∧ f.kind = .map ∧ f.kind ≠ .object ∧ f.properties = [] :=
  ⟨rfl, rfl, rfl, _, rfl, rfl, rfl, nofun, rfl⟩

end Sample

theorem fieldAt_union_sample :
    "anyOf" ∈ unions ∧
    Sample.limited.document.resolve Sample.limits = .ok ⟨some Sample.declaredLimits, "Limits"⟩ ∧
    Sample.limited.schemaType Sample.declaredLimits = .ok .object ∧
    ∃ fields, Sample.limited.walkFrom false 1 (.text "limits") Sample.limits = .ok fields ∧
      fields ≠ [] ∧
      (∃ info, Sample.limited.fieldAt 0 (.text "limits") (.text "limits") false Sample.limits =
        .ok (some { toFieldInfo := info, properties := fields }) ∧ info.kind = .object) ∧
      ∃ info, Sample.limited.fieldAt 0 (.text "limits") (.text "limits") false
          (.union "anyOf" [Sample.limits, .null]) = .ok (some (.leaf info)) ∧
        info.name = .text "limits" ∧ info.type = .object ∧ info.kind = .map ∧
        info.itemType = some .string := by
  have hmember : "anyOf" ∈ unions := by decide
  have hresolve : Sample.limited.document.resolve Sample.limits =
      .ok ⟨some Sample.declaredLimits, "Limits"⟩ := rfl
  have htype : Sample.limited.schemaType Sample.declaredLimits = .ok .object := rfl
  obtain ⟨fields, hwalk⟩ : ∃ fields,
      Sample.limited.walkFrom false 1 (.text "limits") Sample.limits = .ok fields := ⟨_, rfl⟩
  have hfields : fields ≠ [] := by
    rintro rfl
    cases hwalk
  have hunion := fieldAt_union Sample.limited hmember hresolve htype 0 hwalk hfields
    [.null] (.text "limits") false
  obtain ⟨hitself, hkind, hfallback, -⟩ := hunion
  obtain ⟨info, hinfo⟩ : ∃ info, Sample.limited.fieldInfo (.text "limits") (.text "limits") false
      "Limits" .object Sample.declaredLimits = .ok info := ⟨_, rfl⟩
  rw [hinfo] at hitself
  exact ⟨hmember, hresolve, htype, fields, hwalk, hfields, ⟨info, hitself, hkind info hinfo⟩,
    hfallback rfl⟩

end Extractor

end ApiModels
