/-
ApiModels.Proofs.Extract.Inlined — references and what they lead to.

In a schema, other schemas stand in fixed places: as the value of a property,
as items and additional properties, and among the parts and the alternatives.
`Document.Inlined d v w` says that `w` is the node `v` with references in such
places, on any level, replaced by what they lead to.

Wherever a walk looks at a node, it follows its references first. So both
nodes lead to the same object but for nodes that stand in it
(`Document.Inlined.resolve`), they are of one type and have the same
properties, and the walks of both give the same fields, or fail in the same
way. Only the names of the references, which fields keep, are lost
(`Extractor.walkFrom_inlined`).
-/
import ApiModels.Proofs.Extract.Alike
import ApiModels.Proofs.Extract.Composed
import ApiModels.Proofs.Field.Tree

namespace ApiModels

open ApiModels.Result (Agree)

/-! ## Nodes with references replaced -/

namespace Schema

/-- Two members of schemas are the same but for the schemas in them, which are in a relation. -/
inductive MemberBy (R : Value → Value → Prop) : Scalar × Value → Scalar × Value → Prop where
  | same (m) : MemberBy R m m
  | node {key v w} (hkey : key ∈ ["items", "additionalProperties"]) (h : R v w) :
      MemberBy R (.text key, v) (.text key, w)
  | nodes {key v w vs ws} (hkey : key ∈ compositions) (hv : v.bare = .list vs)
      (hw : w.bare = .list ws) (h : List.Forall₂ R vs ws) : MemberBy R (.text key, v) (.text key, w)
  | properties {v w ps qs} (hv : v.members? = some ps) (hw : w.members? = some qs)
      (h : List.Forall₂ (PropertyBy R) ps qs) :
      MemberBy R (.text "properties", v) (.text "properties", w)

end Schema

/-- A node with references, in it and at its places for schemas, replaced by what they lead to. -/
inductive Document.Inlined (d : Document) : Value → Value → Prop where
  | same (v) : Inlined d v v
  | object {v w} {ms ns : Members} (hv : v.members? = some ms) (hw : w.members? = some ns)
      (h : List.Forall₂ (ApiModels.Schema.MemberBy (Inlined d)) ms ns) : Inlined d v w
  | reference {v w name} {schema ns : Members} (hv : d.resolve v = .ok ⟨some schema, name⟩)
      (hw : w.members? = some ns)
      (h : List.Forall₂ (ApiModels.Schema.MemberBy (Inlined d)) schema ns) : Inlined d v w

namespace Schema

variable {R : Value → Value → Prop} {ms ns : Members} {key : String} {v w : Value}

theorem keepsKeys_memberBy : Members.KeepsKeys (MemberBy R) := by
  intro m n h
  cases h <;> rfl

/-- What is found under a name corresponds. -/
theorem memberBy_get? (h : List.Forall₂ (MemberBy R) ms ns) (key : String) :
    Option.Rel (fun v w => MemberBy R (.text key, v) (.text key, w)) (ms.get? key)
      (ns.get? key) := by
  induction h with
  | nil => exact .none
  | @cons m n ms ns hm _ ih =>
    have hkeys := keepsKeys_memberBy _ _ hm
    unfold Members.get? Members.lookup at ih ⊢
    rw [List.find?_cons, List.find?_cons, ← hkeys]
    cases hsame : m.1.same (.text key) with
    | false => exact ih
    | true =>
      have hkey : m.1 = .text key := Scalar.same_text_iff.1 hsame
      obtain ⟨_, v⟩ := m
      obtain ⟨_, w⟩ := n
      cases hkey
      cases hkeys
      exact .some hm

theorem memberBy_get (h : List.Forall₂ (MemberBy R) ms ns) (key : String) :
    MemberBy R (.text key, ms.get key) (.text key, ns.get key) := by
  unfold Members.get
  obtain ⟨hv, hw⟩ | ⟨v, w, hv, hw, hvw⟩ := rel_cases (memberBy_get? h key)
  · rw [hv, hw]
    exact .same _
  · rw [hv, hw]
    exact hvw

theorem has_eq (h : List.Forall₂ (MemberBy R) ms ns) (key : String) : ms.has key = ns.has key :=
  Members.isSome_lookup_of_keys (.of_eq (Members.forall₂_keys keepsKeys_memberBy h)) (.text key)

/-- The members in which schemas stand. -/
def places : List String := ["items", "additionalProperties", "properties"] ++ compositions

/-- In any other member nothing is replaced. -/
theorem eq_of_memberBy (h : MemberBy R (.text key, v) (.text key, w)) (hkey : key ∉ places) :
    v = w := by
  cases h with
  | same => rfl
  | node hnode => exact absurd (by simp_all [places]) hkey
  | nodes hnodes => exact absurd (List.mem_append_right _ hnodes) hkey
  | properties => exact absurd (by decide) hkey

theorem get_eq (h : List.Forall₂ (MemberBy R) ms ns) (key : String) (hkey : key ∉ places) :
    ms.get key = ns.get key :=
  eq_of_memberBy (memberBy_get h key) hkey

end Schema

namespace Document

open ApiModels.Schema (MemberBy PropertyBy memberBy_get memberBy_get? eq_of_memberBy get_eq)

variable {d : Document} {v w : Value} {ms ns schema schema' : Members} {key : String}

/-- Two schemas are the same but for nodes in their places. -/
def InlinedMembers (d : Document) (ms ns : Members) : Prop :=
  List.Forall₂ (MemberBy d.Inlined) ms ns

theorem InlinedMembers.refl (ms : Members) : d.InlinedMembers ms ms :=
  List.forall₂_same.2 fun m _ => .same m

/-! ## Where they lead -/

/-- Where a chain goes on from a node is said by its reference alone. -/
theorem follow_congr {root : Members} {hops : Nat} {name : String} {reference : Value}
    (h : ms.get? Pointer.member = some reference) (h' : ns.get? Pointer.member = some reference) :
    root.follow hops name ms = root.follow hops name ns := by
  unfold Members.follow
  simp only [h, h']
  split
  · contradiction
  · rfl
  · rfl

theorem InlinedMembers.reference_eq (h : d.InlinedMembers ms ns) :
    ms.get? Pointer.member = ns.get? Pointer.member := by
  obtain ⟨hv, hw⟩ | ⟨v, w, hv, hw, hvw⟩ := rel_cases (memberBy_get? h Pointer.member)
  · rw [hv, hw]
  · rw [hv, hw, eq_of_memberBy hvw (by decide)]

/-- Two nodes lead to schemas that are the same but for nodes in their places, or both to none. -/
theorem Inlined.resolve (h : d.Inlined v w) :
    Agree (fun r s => Option.Rel d.InlinedMembers r.node s.node) (d.resolve v) (d.resolve w) := by
  have hsame : ∀ r : Resolution, Option.Rel d.InlinedMembers r.node r.node := by
    rintro ⟨_ | ms, name⟩
    · exact .none
    · exact .some (.refl ms)
  cases h with
  | same => exact .of_eq rfl fun r _ => hsame r
  | object hv hw h =>
    rename_i ms ns
    have href := InlinedMembers.reference_eq h
    cases hreference : ms.get? Pointer.member with
    | none =>
      rw [resolve_end hv hreference, resolve_end hw (href ▸ hreference)]
      exact .ok (.some h)
    | some reference =>
      refine .of_eq ?_ fun r _ => hsame r
      rw [Document.resolve, Document.resolve, Members.resolve_eq, Members.resolve_eq, hv, hw]
      exact follow_congr hreference (href ▸ hreference)
  | reference hv hw h =>
    rename_i schema name ns
    have href := InlinedMembers.reference_eq h
    rw [hv, resolve_end hw (href ▸ end_of_resolve hv)]
    exact .ok (.some h)

/-! ## What stands in the places for schemas -/

/-- Two lists of schemas correspond; a value that is no list is the same on both sides. -/
inductive InlinedList (d : Document) : Value → Value → Prop where
  | same (v : Value) : InlinedList d v v
  | list {v w : Value} {vs ws : List Value} (hv : v.bare = .list vs) (hw : w.bare = .list ws)
      (h : List.Forall₂ d.Inlined vs ws) : InlinedList d v w

/-- The properties of two schemas correspond; what is no object is the same on both sides. -/
inductive InlinedProperties (d : Document) : Value → Value → Prop where
  | same (v : Value) : InlinedProperties d v v
  | object {v w : Value} {ps qs : Members} (hv : v.members? = some ps) (hw : w.members? = some qs)
      (h : List.Forall₂ (PropertyBy d.Inlined) ps qs) : InlinedProperties d v w

theorem inlined_of_memberBy (h : MemberBy d.Inlined (.text key, v) (.text key, w))
    (hkey : key ∈ ["items", "additionalProperties"]) : d.Inlined v w := by
  cases h with
  | same => exact .same _
  | node _ h => exact h
  | nodes hnodes => rcases List.mem_pair.1 hkey with rfl | rfl <;> exact absurd hnodes (by decide)
  | properties => exact absurd hkey (by decide)

theorem inlinedList_of_memberBy (h : MemberBy d.Inlined (.text key, v) (.text key, w))
    (hkey : key ∈ ApiModels.Schema.compositions) : d.InlinedList v w := by
  cases h with
  | same => exact .same _
  | node hnode => rcases List.mem_pair.1 hnode with rfl | rfl <;> exact absurd hkey (by decide)
  | nodes _ hv hw h => exact .list hv hw h
  | properties => exact absurd hkey (by decide)

theorem inlinedProperties_of_memberBy
    (h : MemberBy d.Inlined (.text "properties", v) (.text "properties", w)) :
    d.InlinedProperties v w := by
  cases h with
  | same => exact .same _
  | node hnode => exact absurd hnode (by decide)
  | nodes hnodes => exact absurd hnodes (by decide)
  | properties hv hw h => exact .object hv hw h

/-! ## Reading it -/

theorem InlinedList.given_eq (h : d.InlinedList v w) : v.given = w.given := by
  cases h with
  | same => rfl
  | list hv hw h =>
    rw [← Value.given_bare v, ← Value.given_bare w, hv, hw]
    cases h <;> rfl

theorem InlinedList.itemsOrNone (h : d.InlinedList v w) :
    Agree (List.Forall₂ d.Inlined) v.itemsOrNone w.itemsOrNone := by
  have hgiven := h.given_eq
  cases h with
  | same => exact .of_eq rfl fun vs _ => List.forall₂_same.2 fun v _ => .same v
  | list hv hw h =>
    unfold Value.itemsOrNone
    rw [hgiven, Value.items_of_list hv, Value.items_of_list hw]
    split
    · exact .ok h
    · exact .ok .nil

theorem InlinedList.first (h : d.InlinedList v w) : Agree d.Inlined v.first w.first := by
  cases h with
  | same => exact .of_eq rfl fun v _ => .same v
  | list hv hw h =>
    unfold Value.first
    rw [hv, hw]
    cases h with
    | nil => exact .error _
    | cons hfirst _ => exact .ok hfirst

theorem InlinedProperties.given_eq (h : d.InlinedProperties v w) : v.given = w.given := by
  cases h with
  | same => rfl
  | object hv hw h =>
    rw [Value.given_of_members? hv, Value.given_of_members? hw]
    cases h <;> rfl

theorem InlinedProperties.membersOrNone (h : d.InlinedProperties v w) :
    Agree (List.Forall₂ (PropertyBy d.Inlined)) v.membersOrNone w.membersOrNone := by
  have hgiven := h.given_eq
  cases h with
  | same => exact .of_eq rfl fun ps _ => List.forall₂_same.2 fun p _ => .mk p.1 (.same p.2)
  | object hv hw h =>
    unfold Value.membersOrNone Value.members
    rw [hgiven, hv, hw]
    split
    · exact .ok h
    · exact .ok .nil

theorem InlinedProperties.association (h : d.InlinedProperties v w) :
    Agree (List.Forall₂ (PropertyBy d.Inlined)) v.association w.association := by
  have hgiven := h.given_eq
  cases h with
  | same => exact .of_eq rfl fun ps _ => List.forall₂_same.2 fun p _ => .mk p.1 (.same p.2)
  | object hv hw h =>
    unfold Value.association
    rw [hgiven, hv, hw]
    split
    · exact .ok h
    · exact .ok .nil

end Document

/-! ## What schemas say -/

namespace Schema

open Document (InlinedMembers InlinedList)

variable {d : Document} {schema schema' : Members}

theorem alternatives?_inlined (h : d.InlinedMembers schema schema') :
    Option.Rel d.InlinedList (alternatives? schema) (alternatives? schema') :=
  have hlists : ∀ member ∈ compositions, d.InlinedList (schema.get member) (schema'.get member) :=
    fun member hmember => Document.inlinedList_of_memberBy (memberBy_get h member) hmember
  alternatives?_rel (fun member hmember => (hlists member hmember).given_eq) hlists

theorem firstAlternative_inlined {alternatives alternatives' : Value}
    (h : d.InlinedList alternatives alternatives') :
    Agree (Option.Rel d.InlinedMembers) (firstAlternative d alternatives)
      (firstAlternative d alternatives') :=
  h.first.bind fun _ _ _ _ hfirst => hfirst.resolve.bind fun _ _ _ _ hresolve => .ok hresolve

theorem properties_given_eq (h : d.InlinedMembers schema schema') :
    (schema.get "properties").given = (schema'.get "properties").given :=
  (Document.inlinedProperties_of_memberBy (memberBy_get h "properties")).given_eq

/-- The type of a schema does not depend on whether other schemas stand in it or are referred to. -/
theorem typeWithin_inlined (levels : Nat) (h : d.InlinedMembers schema schema') :
    typeWithin d levels schema = typeWithin d levels schema' := by
  refine typeWithin_rel (R := d.InlinedMembers) (fun schema schema' h => ?_) levels h
  have hdeclared : declaredType? schema = declaredType? schema' := by
    rw [declaredType?, declaredType?, get_eq h "type" (by decide)]
  refine ⟨hdeclared, ?_, properties_given_eq h⟩
  obtain ⟨hv, hw⟩ | ⟨v, w, hv, hw, hvw⟩ := rel_cases (alternatives?_inlined h)
  · rw [hv, hw]
    exact .none
  · rw [hv, hw]
    exact .some (firstAlternative_inlined hvw)

theorem textEnum_inlined (h : d.InlinedMembers schema schema') :
    textEnum d schema = textEnum d schema' := by
  have henum : schema.get "enum" = schema'.get "enum" := get_eq h "enum" (by decide)
  unfold textEnum
  rw [henum]
  split
  · obtain ⟨hv, hw⟩ | ⟨v, w, hv, hw, hvw⟩ := rel_cases (alternatives?_inlined h)
    · simp only [hv, hw]
    · simp only [hv, hw]
      refine Agree.eq ((firstAlternative_inlined hvw).bind fun found found' _ _ hfound => ?_)
      cases hfound with
      | none => exact .of_eq rfl fun _ _ => rfl
      | some halternative =>
        simp only [get_eq halternative "enum" (by decide)]
        exact .of_eq rfl fun _ _ => rfl
  · rfl

/-- What is collected of two schemas: properties that correspond, and one list of required names. -/
def CollectedInlined (d : Document) (r s : Members × List Scalar) : Prop :=
  List.Forall₂ (PropertyBy d.Inlined) r.1 s.1 ∧ r.2 = s.2

theorem addParts_inlined {parts parts' : List Value} (h : List.Forall₂ d.Inlined parts parts') :
    ∀ {r s : Members × List Scalar}, CollectedInlined d r s →
      Agree (CollectedInlined d) (addParts d parts r.1 r.2) (addParts d parts' s.1 s.2) := by
  induction h with
  | nil => exact fun h => .ok h
  | cons hpart _ ih =>
    intro r s ⟨hproperties, hrequired⟩
    unfold addParts
    refine hpart.resolve.bind fun found found' _ _ hfound => ?_
    obtain ⟨hv, hw⟩ | ⟨part, part', hv, hw, hpart⟩ := rel_cases hfound
    · simp only [hv, hw]
      exact ih ⟨hproperties, hrequired⟩
    · have hinherited := Document.inlinedProperties_of_memberBy (memberBy_get hpart "properties")
      simp only [hv, hw, get_eq hpart "required" (by decide), hrequired]
      exact hinherited.membersOrNone.bind fun _ _ _ _ hinherited => .bind_eq rfl fun _ _ =>
        ih (r := (_, _)) (s := (_, _))
          ⟨addProperties_forall₂ keepsKeys_propertyBy hinherited hproperties, rfl⟩

theorem properties_inlined (h : d.InlinedMembers schema schema') :
    Agree (CollectedInlined d) (properties d schema) (properties d schema') := by
  have hown := Document.inlinedProperties_of_memberBy (memberBy_get h "properties")
  have hparts := Document.inlinedList_of_memberBy (memberBy_get h "allOf") (by decide)
  unfold properties
  rw [get_eq h "required" (by decide)]
  exact hown.association.bind fun _ _ _ _ hown => .bind_eq rfl fun _ _ =>
    hparts.itemsOrNone.bind fun _ _ _ _ hparts => addParts_inlined hparts (r := (_, _))
      (s := (_, _)) ⟨addProperties_forall₂ keepsKeys_propertyBy hown .nil, rfl⟩

end Schema

/-! ## Fields up to the names of references -/

/-- What a field says apart from the names of the references that led to it and to its items. -/
def FieldInfo.unreferenced (info : FieldInfo) : FieldInfo :=
  { info with refName := "", itemRefName := "" }

/-- What two fields say of themselves is equal up to the names of references. -/
inductive FieldInfo.Renamed (info : FieldInfo) : FieldInfo → Prop where
  | mk (refName itemRefName : String) : FieldInfo.Renamed info { info with refName, itemRefName }

/-- Two fields are equal up to the names of references, on every level. -/
def Field.Renamed (f g : Field) : Prop :=
  f.restate FieldInfo.unreferenced = g.restate FieldInfo.unreferenced

namespace Field

variable {f g : Field} {fields fields' : List Field}

theorem forall₂_renamed_iff : List.Forall₂ Renamed fields fields' ↔
    fields.map (restate FieldInfo.unreferenced) = fields'.map (restate FieldInfo.unreferenced) := by
  unfold Renamed
  rw [← List.forall₂_eq_eq_eq, List.forall₂_map_left_iff, List.forall₂_map_right_iff]

/-- Fields are equal so if what they say is, and what is in them. -/
theorem Renamed.mk (info : f.toFieldInfo.Renamed g.toFieldInfo)
    (item : Option.Rel Renamed f.item g.item)
    (properties : List.Forall₂ Renamed f.properties g.properties) : Renamed f g := by
  have hinfo : f.toFieldInfo.unreferenced = g.toFieldInfo.unreferenced := by
    revert info
    generalize g.toFieldInfo = j
    rintro ⟨refName, itemRefName⟩
    rfl
  refine restate_congr hinfo ?_ (forall₂_renamed_iff.1 properties)
  obtain ⟨hf, hg⟩ | ⟨i, j, hf, hg, hij⟩ := rel_cases item
  · rw [hf, hg]
  · rw [hf, hg]
    exact congrArg some hij

end Field

/-! ## The walk -/

namespace Extractor

open ApiModels.Schema (memberBy_get get_eq)
open ApiModels.Document (inlined_of_memberBy)

variable {x : Extractor} {path name : Scalar} {v w : Value} {schema schema' : Members}
  {required : Bool}

theorem schemaType_inlined (h : x.document.InlinedMembers schema schema') :
    x.schemaType schema = x.schemaType schema' :=
  Schema.typeWithin_inlined _ h

/-- What a schema says of a field stands in none of the places for schemas. -/
theorem fieldInfo_inlined (h : x.document.InlinedMembers schema schema') (refName refName' : String)
    (type : SemanticType) :
    Agree FieldInfo.Renamed (x.fieldInfo path name required refName type schema)
      (x.fieldInfo path name required refName' type schema') := by
  unfold fieldInfo
  rw [get_eq h "description" (by decide), get_eq h "minimum" (by decide),
    get_eq h "maximum" (by decide), get_eq h "format" (by decide), get_eq h "readOnly" (by decide),
    get_eq h "pattern" (by decide), Schema.has_eq h]
  refine .bind_eq rfl fun _ _ => .bind_eq rfl fun _ _ => .bind_eq rfl fun _ _ => .ok ?_
  cases x.policy.overrideAt? path with
  | none => exact .mk refName' ""
  | some o => exact .mk refName' ""

theorem mapValueType_inlined (h : x.document.InlinedMembers schema schema') :
    x.mapValueType name schema = x.mapValueType name schema' :=
  have hallowed := inlined_of_memberBy (memberBy_get h "additionalProperties") (by decide)
  mapValueType_paired hallowed.resolve schemaType_inlined

theorem readsPaired_inlined (x : Extractor) :
    ReadsPaired x x x.document.Inlined x.document.InlinedMembers fun _ _ => True where
  resolve h := h.resolve.imp fun _ _ hnode => ⟨hnode, trivial⟩
  type := schemaType_inlined
  texts := Schema.textEnum_inlined
  values h _ := mapValueType_inlined h
  items h := inlined_of_memberBy (memberBy_get h "items") (by decide)
  properties h := (Schema.properties_inlined h).imp fun _ _ ⟨hproperties, hrequired⟩ =>
    ⟨Schema.sortOnKey_forall₂ Schema.keepsKeys_propertyBy hproperties, fun _ => by rw [hrequired]⟩

theorem statesPaired_inlined (x : Extractor) :
    StatesPaired x x x.document.InlinedMembers (fun _ _ => True) FieldInfo.Renamed
      FieldInfo.Renamed Field.Renamed where
  excludes _ _ := rfl
  identifier := rfl
  info h _ _ _ _ _ _ type := fieldInfo_inlined h _ _ type
  name h := by
    cases h
    rfl
  type h := by
    cases h
    rfl
  scalar := id
  text h enum := by
    obtain ⟨refName, itemRefName⟩ := h
    exact .mk refName itemRefName
  map h itemType := by
    obtain ⟨refName, itemRefName⟩ := h
    exact .mk refName itemRefName
  array h _ n' _ itemType := by
    obtain ⟨refName, itemRefName⟩ := h
    exact .mk refName n'
  item {_ n'} _ := .mk n' ""
  field := .mk

/--
A node gives the same fields, up to the names of references on every level, or the same failure, if
references at its places for schemas, on any level, are replaced by what they lead to.
-/
theorem walkFrom_inlined (x : Extractor) (h : x.document.Inlined v w) (skip : Bool) (depth : Int)
    (path : Scalar) :
    (x.walkFrom skip depth path v).map (List.map (Field.restate FieldInfo.unreferenced)) =
      (x.walkFrom skip depth path w).map (List.map (Field.restate FieldInfo.unreferenced)) := by
  have hagree := walkFrom_paired (readsPaired_inlined x) (statesPaired_inlined x) rfl h skip depth
    path
  exact hagree.map_eq fun _ _ => Field.forall₂_renamed_iff.1

namespace Sample

/-- A node with limits: a property, the items of another one, and a part of a third. -/
def withLimits (limits : Value) : Value :=
  .record [("properties", .record
    [("own", limits), ("past", .record [("type", .text "array"), ("items", limits)]),
      ("next", .wrapped limits)])]

theorem withLimits_inlined {v w : Value} (h : limited.document.Inlined v w) :
    limited.document.Inlined (withLimits v) (withLimits w) := by
  have hitems : limited.document.Inlined (.record [("type", .text "array"), ("items", v)])
      (.record [("type", .text "array"), ("items", w)]) :=
    .object rfl rfl (.cons (.same _) (.cons (.node (List.mem_cons_self ..) h) .nil))
  have hparts : "allOf" ∈ Schema.compositions := by decide
  have hpart : limited.document.Inlined (.wrapped v) (.wrapped w) :=
    .object rfl rfl (.cons (.nodes hparts rfl rfl (.cons h .nil)) .nil)
  exact .object rfl rfl (.cons (.properties rfl rfl
    (.cons (.mk _ h) (.cons (.mk _ hitems) (.cons (.mk _ hpart) .nil)))) .nil)

end Sample

theorem walkFrom_inlined_sample :
    Sample.limited.document.Inlined (Sample.withLimits Sample.limits)
      (Sample.withLimits (.object Sample.declaredLimits)) ∧
    (Sample.limited.walkFrom false 0 (.text "") (Sample.withLimits Sample.limits)).map Field.names =
      .ok [.text "next", .text "own", .text "past"] ∧
    (Sample.limited.walkFrom false 0 (.text "") (Sample.withLimits Sample.limits)).map
        (List.map (Field.restate FieldInfo.unreferenced)) =
      (Sample.limited.walkFrom false 0 (.text "")
        (Sample.withLimits (.object Sample.declaredLimits))).map
        (List.map (Field.restate FieldInfo.unreferenced)) := by
  have hlimits : Sample.limited.document.Inlined Sample.limits (.object Sample.declaredLimits) :=
    .reference rfl rfl (Document.InlinedMembers.refl _)
  have hnodes := Sample.withLimits_inlined hlimits
  exact ⟨hnodes, rfl, walkFrom_inlined Sample.limited hnodes false 0 (.text "")⟩

end Extractor

end ApiModels
