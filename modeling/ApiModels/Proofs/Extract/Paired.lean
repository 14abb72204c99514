/-
ApiModels.Proofs.Extract.Paired — two walks, side by side.

A law about two walks relates the nodes that they come to, the schemas that
these lead to, and the fields that come out. Which relations these are is a
matter of the law; that they are kept on from function to function is not.
`ReadsPaired` is what has to be shown of nodes and schemas, `StatesPaired` what
has to be shown of fields, and `walkFrom_paired` is what follows: the walks give
fields that correspond one by one, or the same failure.
-/
import ApiModels.Proofs.Document.Reference
import ApiModels.Proofs.Value.Alike

namespace ApiModels

open ApiModels.Result (Agree)

namespace Schema

/-- Two properties of one name, whose nodes are in a relation. -/
inductive PropertyBy (N : Value → Value → Prop) : Scalar × Value → Scalar × Value → Prop where
  | mk (name : Scalar) {v w} (h : N v w) : PropertyBy N (name, v) (name, w)

theorem keepsKeys_propertyBy {N : Value → Value → Prop} :
    Members.KeepsKeys (PropertyBy N) := by
  intro m n h
  cases h
  rfl

theorem propertyBy_self {N : Value → Value → Prop} (hN : ∀ v, N v v) (ps : Members) :
    List.Forall₂ (PropertyBy N) ps ps :=
  List.forall₂_same.2 fun p _ => .mk p.1 (hN p.2)

end Schema

namespace Extractor

/-- Nodes in a relation lead to schemas in a relation, and these say the same to two walks. -/
structure ReadsPaired (x y : Extractor) (N : Value → Value → Prop) (S : Members → Members → Prop)
    (Q : String → String → Prop) : Prop where
  resolve : ∀ {v w}, N v w →
    Agree (fun r s => Option.Rel S r.node s.node ∧ Q r.name s.name) (x.document.resolve v)
      (y.document.resolve w)
  type : ∀ {s s'}, S s s' → x.schemaType s = y.schemaType s'
  texts : ∀ {s s'}, S s s' → Schema.textEnum x.document s = Schema.textEnum y.document s'
  values : ∀ {s s'}, S s s' → ∀ name, x.mapValueType name s = y.mapValueType name s'
  items : ∀ {s s'}, S s s' → N (s.get "items") (s'.get "items")
  properties : ∀ {s s'}, S s s' →
    Agree (fun r r' => Agree (List.Forall₂ (Schema.PropertyBy N)) (sortOnKey (·.1) r.1)
        (sortOnKey (·.1) r'.1) ∧ ∀ name : Scalar, name.isAmong r.2 = name.isAmong r'.2)
      (Schema.properties x.document s) (Schema.properties y.document s')

/--
What is said of a field is in the relation `I` when it is read off schemas in a relation, and in `J`
when the field is complete. Fields are in a relation if what they say is, and what is in them.
-/
structure StatesPaired (x y : Extractor) (S : Members → Members → Prop)
    (Q : String → String → Prop) (I J : FieldInfo → FieldInfo → Prop) (R : Field → Field → Prop) :
    Prop where
  excludes : ∀ name path, y.policy.excludes name path = x.policy.excludes name path
  identifier : y.identifier = x.identifier
  info : ∀ {s s'}, S s s' → ∀ {n n'}, Q n n' → ∀ path name required type,
    Agree I (x.fieldInfo path name required n type s) (y.fieldInfo path name required n' type s')
  name : ∀ {i j}, I i j → i.name = j.name
  type : ∀ {i j}, I i j → i.type = j.type
  scalar : ∀ {i j}, I i j → J i j
  text : ∀ {i j}, I i j → ∀ enum, J { i with enum } { j with enum }
  map : ∀ {i j}, I i j → ∀ itemType,
    J { i with kind := .map, itemType } { j with kind := .map, itemType }
  array : ∀ {i j}, I i j → ∀ {n n'}, Q n n' → ∀ itemType,
    J { i with
        itemType, itemRefName := n, kind := if x.policy.isSetField i.name then .set else .list }
      { j with
        itemType, itemRefName := n', kind := if y.policy.isSetField j.name then .set else .list }
  item : ∀ {n n'}, Q n n' → J { name := .text "", type := .object, refName := n }
    { name := .text "", type := .object, refName := n' }
  field : ∀ {f g : Field}, J f.toFieldInfo g.toFieldInfo → Option.Rel R f.item g.item →
    List.Forall₂ R f.properties g.properties → R f g

/-- Two walks of nested nodes give fields that correspond, from nodes in a relation. -/
def NestedPaired (N : Value → Value → Prop) (R : Field → Field → Prop) (nested nested' : Nested) :
    Prop :=
  ∀ path v w, N v w → Agree (List.Forall₂ R) (nested path v) (nested' path w)

variable {x y : Extractor} {N : Value → Value → Prop} {S : Members → Members → Prop}
  {Q : String → String → Prop} {I J : FieldInfo → FieldInfo → Prop} {R : Field → Field → Prop}
  {nested nested' : Nested} {path name : Scalar} {v w : Value} {schema schema' : Members}
  {info info' : FieldInfo}

/-! ## One field -/

/-- The type of the values of a map shows in what its further properties lead to. -/
theorem mapValueType_eq_resolved : x.mapValueType name schema = (do
    match (← x.document.resolve (schema.get "additionalProperties")).node with
    | none => .ok .string
    | some valueSchema =>
      match ← x.schemaType valueSchema with
      | .unknown | .object | .array => .ok .string
      | t => .ok (t.actualMapValue name.display)) := by
  simp only [mapValueType]
  cases hallowed : (schema.get "additionalProperties").members? with
  | none =>
    have hnowhere : x.document.resolve (schema.get "additionalProperties") = .ok ⟨none, ""⟩ := by
      rw [Document.resolve, Members.resolve, hallowed]
    rw [hnowhere]
    rfl
  | some ms =>
    cases ms with
    | nil =>
      have htype : x.schemaType [] = .ok .unknown := by
        unfold schemaType
        cases (x.maxDepth + 2).toNat <;> rfl
      rw [Document.resolve_end hallowed rfl]
      simp only [bind, Except.bind, htype]
    | cons m ms => rfl

/-- The values of maps are of one type, if that is so of what the further properties lead to. -/
theorem mapValueType_paired {T : Members → Members → Prop}
    (hallowed : Agree (fun r s => Option.Rel T r.node s.node)
      (x.document.resolve (schema.get "additionalProperties"))
      (y.document.resolve (schema'.get "additionalProperties")))
    (htype : ∀ {s s'}, T s s' → x.schemaType s = y.schemaType s') :
    x.mapValueType name schema = y.mapValueType name schema' := by
  rw [mapValueType_eq_resolved, mapValueType_eq_resolved]
  refine Agree.eq (hallowed.bind fun found found' _ _ hfound => ?_)
  obtain ⟨hv, hw⟩ | ⟨values, values', hv, hw, hschemas⟩ := rel_cases hfound
  · simp only [hv, hw]
    exact .ok rfl
  · simp only [hv, hw]
    exact .bind_eq (htype hschemas) fun _ _ => .of_eq rfl fun _ _ => rfl

theorem StatesPaired.leaf (hs : StatesPaired x y S Q I J R) (h : J info info') :
    R (.leaf info) (.leaf info') :=
  hs.field h .none .nil

theorem arrayField_paired (hr : ReadsPaired x y N S Q) (hs : StatesPaired x y S Q I J R)
    (hnested : NestedPaired N R nested nested') (h : S schema schema') (hinfo : I info info') :
    Agree (Option.Rel R) (x.arrayField nested path info schema)
      (y.arrayField nested' path info' schema') := by
  unfold arrayField
  refine (hr.resolve (hr.items h)).bind fun found found' _ _ ⟨hfound, hname⟩ => ?_
  obtain ⟨hv, hw⟩ | ⟨items, items', hv, hw, hschemas⟩ := rel_cases hfound
  · simp only [hv, hw]
    exact .ok .none
  · simp only [hv, hw]
    refine .bind_eq (hr.type hschemas) fun itemType _ => ?_
    have harray := hs.array hinfo hname (some itemType)
    split
    · refine (hnested path _ _ (hr.items h)).bind fun fields fields' _ _ hfields => ?_
      cases hfields with
      | nil => exact .ok .none
      | cons hfield hfields =>
        have hitem := hs.field (f := itemField found.name _) (g := itemField found'.name _)
          (hs.item hname) .none (.cons hfield hfields)
        exact .ok (.some (hs.field harray (.some hitem) .nil))
    · exact .ok (.some (hs.leaf harray))

theorem objectField_paired (hr : ReadsPaired x y N S Q) (hs : StatesPaired x y S Q I J R)
    (hnested : NestedPaired N R nested nested') (hnode : N v w) (h : S schema schema')
    (hinfo : I info info') :
    Agree R (x.objectField nested path info v schema)
      (y.objectField nested' path info' w schema') := by
  unfold objectField
  refine (hnested path _ _ hnode).bind fun fields fields' _ _ hfields => ?_
  cases hfields with
  | nil =>
    have hvalues : x.mapValueType info.name schema = y.mapValueType info'.name schema' :=
      hs.name hinfo ▸ hr.values h info.name
    exact .bind_eq hvalues fun _ _ => .ok (hs.leaf (hs.map hinfo _))
  | cons hfield hfields => exact .ok (hs.field (hs.scalar hinfo) .none (.cons hfield hfields))

theorem field_paired (hr : ReadsPaired x y N S Q) (hs : StatesPaired x y S Q I J R)
    (hnested : NestedPaired N R nested nested') (h : N v w) (required : Bool) :
    Agree (Option.Rel R) (x.field nested path name required v)
      (y.field nested' path name required w) := by
  unfold field
  refine (hr.resolve h).bind fun found found' _ _ ⟨hfound, hname⟩ => ?_
  obtain ⟨hv, hw⟩ | ⟨schema, schema', hv, hw, hschemas⟩ := rel_cases hfound
  · simp only [hv, hw]
    exact .ok .none
  · simp only [hv, hw]
    refine .bind_eq (hr.type hschemas) fun type _ =>
      (hs.info hschemas hname _ _ _ _).bind fun info info' _ _ hinfo => ?_
    have htype := hs.type hinfo
    rw [← htype]
    split
    · refine .bind_eq (hr.texts hschemas) fun enum _ => .ok (.some (hs.leaf ?_))
      have htext := hs.text hinfo enum
      rwa [← htype] at htext
    · exact .ok (.some (hs.leaf (hs.scalar hinfo)))
    · exact .ok (.some (hs.leaf (hs.scalar hinfo)))
    · exact .ok (.some (hs.leaf (hs.scalar hinfo)))
    · exact arrayField_paired hr hs hnested hschemas hinfo
    · exact (objectField_paired hr hs hnested h hschemas hinfo).bind
        fun _ _ _ _ hf => .ok (.some hf)
    · exact .bind_eq rfl fun _ _ => .ok .none

/-! ## The walk -/

theorem fieldsAmong_paired (hr : ReadsPaired x y N S Q) (hs : StatesPaired x y S Q I J R)
    (hnested : NestedPaired N R nested nested') {required required' : List Scalar}
    (hrequired : ∀ name : Scalar, name.isAmong required = name.isAmong required')
    {members members' : Members} (h : List.Forall₂ (Schema.PropertyBy N) members members') :
    Agree (List.Forall₂ R) (x.fieldsAmong nested path required members)
      (y.fieldsAmong nested' path required' members') := by
  induction h with
  | nil => exact .ok .nil
  | @cons m n rest rest' hm _ ih =>
    obtain ⟨name, hnode⟩ := hm
    unfold fieldsAmong
    refine .bind_eq rfl fun inner _ => ?_
    rw [hs.excludes, hrequired]
    cases x.policy.excludes name inner with
    | true => exact .bind_eq rfl fun _ _ => ih.put_front .none
    | false =>
      exact (field_paired hr hs hnested hnode _).bind fun _ _ _ _ hfirst => ih.put_front hfirst

/-- The identifier is taken out of members that correspond one by one. -/
theorem withoutIdentifier_forall₂ (hidentifier : y.identifier = x.identifier)
    {T : Scalar × Value → Scalar × Value → Prop} (hT : Members.KeepsKeys T)
    {members members' : Members} (h : List.Forall₂ T members members') :
    Agree (List.Forall₂ T) (x.withoutIdentifier members) (y.withoutIdentifier members') := by
  induction h with
  | nil => exact .ok .nil
  | @cons m n rest rest' hm _ ih =>
    unfold withoutIdentifier
    rw [hidentifier]
    refine .bind_eq (congrArg Scalar.lower (hT _ _ hm)) fun lower _ =>
      ih.bind fun others others' _ _ hothers => .ok ?_
    by_cases hsame : lower.same x.identifier = true
    · rw [if_pos hsame, if_pos hsame]
      exact hothers
    · rw [if_neg hsame, if_neg hsame]
      exact .cons hm hothers

/-- What is taken out depends on the identifier alone. -/
theorem withoutIdentifier_congr {y : Extractor} (hidentifier : y.identifier = x.identifier)
    (members : Members) : x.withoutIdentifier members = y.withoutIdentifier members := by
  have hagree := withoutIdentifier_forall₂ (T := Eq) hidentifier (fun _ _ h => congrArg Prod.fst h)
    (List.forall₂_same.2 fun m (_ : m ∈ members) => rfl)
  exact (hagree.imp fun _ _ h => List.forall₂_eq_eq_eq ▸ h).eq

theorem fieldsOf_paired (hr : ReadsPaired x y N S Q) (hs : StatesPaired x y S Q I J R)
    (hnested : NestedPaired N R nested nested') (skip : Bool) (h : N v w) :
    Agree (List.Forall₂ R) (x.fieldsOf nested skip path v) (y.fieldsOf nested' skip path w) := by
  unfold fieldsOf
  refine (hr.resolve h).bind fun found found' _ _ ⟨hfound, _⟩ => ?_
  obtain ⟨hv, hw⟩ | ⟨schema, schema', hv, hw, hschemas⟩ := rel_cases hfound
  · simp only [hv, hw]
    exact .ok .nil
  · simp only [hv, hw]
    refine (hr.properties hschemas).bind fun collected collected' _ _ ⟨hsort, hrequired⟩ =>
      hsort.bind fun sorted sorted' _ _ hsorted => ?_
    cases skip with
    | false => exact fieldsAmong_paired hr hs hnested hrequired hsorted
    | true =>
      exact (withoutIdentifier_forall₂ hs.identifier Schema.keepsKeys_propertyBy hsorted).bind
        fun _ _ _ _ hkept => fieldsAmong_paired hr hs hnested hrequired hkept

theorem walk_paired (hr : ReadsPaired x y N S Q) (hs : StatesPaired x y S Q I J R) (levels : Nat) :
    NestedPaired N R (x.walk levels) (y.walk levels) := by
  induction levels with
  | zero => exact fun _ _ _ _ => .ok .nil
  | succ levels ih => exact fun _ _ _ h => fieldsOf_paired hr hs ih false h

/-- Two walks down to one depth, from nodes in a relation, give fields in a relation. -/
theorem walkFrom_paired (hr : ReadsPaired x y N S Q) (hs : StatesPaired x y S Q I J R)
    (hdepth : y.maxDepth = x.maxDepth) (h : N v w) (skip : Bool) (depth : Int) (path : Scalar) :
    Agree (List.Forall₂ R) (x.walkFrom skip depth path v) (y.walkFrom skip depth path w) := by
  have hlevels : y.levelsFrom depth = x.levelsFrom depth := by
    rw [levelsFrom, levelsFrom, hdepth]
  unfold walkFrom
  rw [hlevels]
  cases x.levelsFrom depth with
  | zero => exact .ok .nil
  | succ levels => exact fieldsOf_paired hr hs (walk_paired hr hs levels) _ h

end Extractor

end ApiModels
