/-
ApiModels.Proofs.Extract.Alike — what is extracted from documents that differ
in the order of members.

Two walks, side by side, through documents that are alike and from nodes that
are alike: they give the same fields, or the same failure
(`Extractor.walkFrom_alike`). What a field passes on as it stands, its format
and its pattern, is alike (`Field.Alike`).

The walk must not come to a schema that depends on the order of members
(`Document.OrderFree`); `Sample.walk_listed` has one.
-/
import ApiModels.Proofs.Document.Alike
import ApiModels.Proofs.Extract.Paired

namespace ApiModels

open ApiModels.Result (Agree)
open ApiModels.Members (MemberAlike)

namespace Schema

/-! ## What a schema says of a field -/

theorem bound_eq {v w : Value} (h : v.Alike w) : bound v = bound w := by
  cases h <;> rfl

theorem textOrNone_eq {v w : Value} (h : v.Alike w) : textOrNone v = textOrNone w := by
  unfold textOrNone
  rw [h.given_eq, h.asText_eq]

end Schema

/-- What two fields say of themselves is equal but for the order of members in what they pass on. -/
inductive FieldInfo.Alike (i : FieldInfo) : FieldInfo → Prop where
  | mk {format pattern} (hformat : i.format.Alike format) (hpattern : i.pattern.Alike pattern) :
      FieldInfo.Alike i { i with format, pattern }

/-- Two fields are equal, but for the order of members in what they pass on. -/
inductive Field.Alike : Field → Field → Prop where
  | mk {f g : Field} (info : f.toFieldInfo.Alike g.toFieldInfo)
      (item : Option.Rel Field.Alike f.item g.item)
      (properties : List.Forall₂ Field.Alike f.properties g.properties) : Field.Alike f g

namespace Document

/-- The nodes that a walk comes to from a node on. -/
inductive Reaches (d : Document) (start : Value) : Value → Prop where
  | start : Reaches d start start
  | items {node schema n} (hnode : Reaches d start node)
      (hresolve : d.resolve node = .ok ⟨some schema, n⟩) : Reaches d start (schema.get "items")
  | property {node schema n name inner} (hnode : Reaches d start node)
      (hresolve : d.resolve node = .ok ⟨some schema, n⟩)
      (h : d.HasProperty schema name inner) : Reaches d start inner

/-- A walk stays among nodes that it starts at and does not leave. -/
theorem Reaches.within {d : Document} {start node : Value} {S : Value → Prop} (hstart : S start)
    (hitems : ∀ node schema n, S node → d.resolve node = .ok ⟨some schema, n⟩ →
      S (schema.get "items"))
    (hproperty : ∀ node schema n, S node → d.resolve node = .ok ⟨some schema, n⟩ →
      ∀ name inner, d.HasProperty schema name inner → S inner)
    (h : d.Reaches start node) : S node := by
  induction h with
  | start => exact hstart
  | items _ hresolve ih => exact hitems _ _ _ ih hresolve
  | property _ hresolve h ih => exact hproperty _ _ _ ih hresolve _ _ h

/-- Where a schema is read as a list, no object stands whose members come in some order. -/
structure OrderFreeSchema (d : Document) (schema : Members) : Prop where
  enum : (schema.get "enum").members? = none
  alternative : Schema.PlainAlternative d schema
  pairs : Schema.PlainPairs (schema.get "properties")

/-- From a node on a walk comes to no schema that depends on the order of members. -/
def OrderFree (d : Document) (start : Value) : Prop :=
  ∀ node schema n, d.Reaches start node → d.resolve node = .ok ⟨some schema, n⟩ →
    d.OrderFreeSchema schema

end Document

namespace Extractor

variable {x : Extractor} {d' : Document} {nested nested' : Nested} {path name : Scalar}
  {node node' : Value} {schema schema' : Members} {start : Value}

/-- The same extractor for another document. -/
def through (x : Extractor) (d : Document) : Extractor := { x with document := d }

theorem schemaType_eq (hd : x.document.Alike d') (h : schema.Alike schema') :
    x.schemaType schema = (x.through d').schemaType schema' :=
  Schema.typeWithin_eq hd _ h

theorem fieldInfo_alike (h : schema.Alike schema') (required : Bool) (refName : String)
    (type : SemanticType) :
    Agree FieldInfo.Alike (x.fieldInfo path name required refName type schema)
      ((x.through d').fieldInfo path name required refName type schema') := by
  unfold fieldInfo
  refine .bind_eq (Schema.textOrNone_eq (h.get "description")) fun description _ =>
    .bind_eq (Schema.bound_eq (h.get "minimum")) fun minimum _ =>
      .bind_eq (Schema.bound_eq (h.get "maximum")) fun maximum _ => .ok ?_
  have hpattern : Value.Alike
      (if type.actual name.display = type then schema.get "pattern" else .null)
      (if type.actual name.display = type then schema'.get "pattern" else .null) := by
    split
    · exact h.get "pattern"
    · exact .scalar _
  simp only [through, h.has_eq, (h.get "readOnly").given_eq]
  cases x.policy.overrideAt? path with
  | none => exact .mk (h.get "format") hpattern
  | some o => exact .mk (h.get "format") hpattern

/-- Two walks of nested nodes agree on the nodes that a walk comes to. -/
def Agrees (x : Extractor) (start : Value) (nested nested' : Nested) : Prop :=
  ∀ path node node', x.document.Reaches start node → node.Alike node' →
    Agree (List.Forall₂ Field.Alike) (nested path node) (nested' path node')

theorem mapValueType_eq (hd : x.document.Alike d') (h : schema.Alike schema') :
    x.mapValueType name schema = (x.through d').mapValueType name schema' :=
  have hallowed := hd.resolve (h.get "additionalProperties")
  mapValueType_paired (hallowed.imp fun _ _ hfound => hfound.node) (schemaType_eq hd)

/-! ## The walk -/

theorem isAmong_perm {required required' : List Scalar} (h : required.Perm required')
    (name : Scalar) : name.isAmong required = name.isAmong required' := by
  rw [Bool.eq_iff_iff, Scalar.isAmong, Scalar.isAmong, List.any_eq_true, List.any_eq_true]
  simp only [h.mem_iff]

/-- Nodes that are alike, the first of which a walk comes to. -/
def AlikeReached (x : Extractor) (start v w : Value) : Prop :=
  x.document.Reaches start v ∧ v.Alike w

/-- Schemas that are alike, the first of which a walk comes to. -/
def AlikeFound (x : Extractor) (start : Value) (schema schema' : Members) : Prop :=
  (∃ node n, x.document.Reaches start node ∧ x.document.resolve node = .ok ⟨some schema, n⟩) ∧
    schema.Alike schema'

theorem readsPaired_alike (hd : x.document.Alike d') (hfree : x.document.OrderFree start) :
    ReadsPaired x (x.through d') (x.AlikeReached start) (x.AlikeFound start) Eq where
  resolve := by
    rintro v w ⟨hnode, hnodes⟩
    refine (hd.resolve hnodes).and_eq_ok.imp ?_
    rintro ⟨schema, n⟩ ⟨schema', n'⟩ ⟨⟨hschema, hname⟩, hresolve, -⟩
    refine ⟨?_, hname⟩
    cases hschema with
    | none => exact .none
    | some h => exact .some ⟨⟨v, n, hnode, hresolve⟩, h⟩
  type := fun ⟨_, h⟩ => schemaType_eq hd h
  texts := by
    rintro schema schema' ⟨⟨node, n, hnode, hresolve⟩, h⟩
    have hschema := hfree node schema n hnode hresolve
    exact Schema.textEnum_eq hd h hschema.enum hschema.alternative
  values := fun ⟨_, h⟩ _ => mapValueType_eq hd h
  items := fun ⟨⟨_, _, hnode, hresolve⟩, h⟩ => ⟨.items hnode hresolve, h.get "items"⟩
  properties := by
    rintro schema schema' ⟨⟨node, n, hnode, hresolve⟩, h⟩
    have hpairs := (hfree node schema n hnode hresolve).pairs
    refine (Schema.properties_alike hd h hpairs).and_eq_ok.imp ?_
    rintro collected collected' ⟨⟨hproperties, hrequired⟩, hc, hc'⟩
    refine ⟨?_, isAmong_perm hrequired⟩
    refine (hproperties.sort (Schema.properties_spec hc').1).and_eq_ok.imp ?_
    rintro sorted sorted' ⟨hmembers, hsorted, -⟩
    have hreached : ∀ m ∈ sorted, x.document.Reaches start m.2 := fun m hm =>
      .property hnode hresolve ((Schema.properties_spec hc).2 m.1 m.2
        ((sortOnKey_perm hsorted).mem_iff.1 hm))
    have hboth := (List.forall₂_and_left sorted sorted').2 ⟨hreached, hmembers⟩
    refine hboth.imp ?_
    rintro ⟨name, v⟩ ⟨_, w⟩ ⟨hv, rfl, hvw⟩
    exact .mk name ⟨hv, hvw⟩

theorem statesPaired_alike : StatesPaired x (x.through d') (x.AlikeFound start) Eq FieldInfo.Alike
    FieldInfo.Alike Field.Alike where
  excludes _ _ := rfl
  identifier := rfl
  info := by
    rintro _ _ ⟨_, h⟩ _ _ rfl path name required type
    exact fieldInfo_alike h required _ type
  name h := by
    cases h
    rfl
  type h := by
    cases h
    rfl
  scalar := id
  text h enum := by
    obtain ⟨hformat, hpattern⟩ := h
    exact .mk hformat hpattern
  map h itemType := by
    obtain ⟨hformat, hpattern⟩ := h
    exact .mk hformat hpattern
  array := by
    rintro _ _ ⟨hformat, hpattern⟩ _ _ rfl itemType
    exact .mk hformat hpattern
  item := by
    rintro _ _ rfl
    exact .mk (.scalar _) (.scalar _)
  field := .mk

theorem fieldsOf_alike (hd : x.document.Alike d') (hfree : x.document.OrderFree start)
    (hnested : x.Agrees start nested nested') (skip : Bool)
    (hnode : x.document.Reaches start node) (hnodes : node.Alike node') :
    Agree (List.Forall₂ Field.Alike) (x.fieldsOf nested skip path node)
      ((x.through d').fieldsOf nested' skip path node') :=
  have hpaired : NestedPaired (x.AlikeReached start) Field.Alike nested nested' :=
    fun path v w ⟨hnode, hnodes⟩ => hnested path v w hnode hnodes
  fieldsOf_paired (readsPaired_alike hd hfree) statesPaired_alike hpaired skip ⟨hnode, hnodes⟩

/-- Walks over as many levels agree. -/
theorem walk_alike (hd : x.document.Alike d') (hfree : x.document.OrderFree start) (levels : Nat) :
    x.Agrees start (x.walk levels) ((x.through d').walk levels) :=
  fun path v w hnode hnodes =>
    walk_paired (readsPaired_alike hd hfree) statesPaired_alike levels path v w ⟨hnode, hnodes⟩

/--
Two walks with one policy, one depth and one path, through documents and from nodes that are equal
up to the order of members, give the same fields or the same failure.
-/
theorem walkFrom_alike (x : Extractor) {d' : Document} {node node' : Value}
    (hd : x.document.Alike d') (hnode : node.Alike node') (hfree : x.document.OrderFree node)
    (skip : Bool) (depth : Int) (path : Scalar) :
    Agree (List.Forall₂ Field.Alike) (x.walkFrom skip depth path node)
      ((x.through d').walkFrom skip depth path node') := by
  have hlevels : (x.through d').levelsFrom depth = x.levelsFrom depth := rfl
  unfold walkFrom
  rw [hlevels]
  cases x.levelsFrom depth with
  | zero => exact .ok .nil
  | succ levels => exact fieldsOf_alike hd hfree (walk_alike hd hfree levels) _ .start hnode

namespace Sample

/-- An extractor for nodes without references. -/
def plain : Extractor := { document := ⟨[], []⟩ }

/-- The name of a disk. -/
def disk : Value :=
  .object [(.text "type", .text "string"), (.text "enum", .list [.text "ssd", .text "hdd"])]

/-- The same node with its members in another order. -/
def diskTurned : Value :=
  .object [(.text "enum", .list [.text "ssd", .text "hdd"]), (.text "type", .text "string")]

/-- The size of a machine. -/
def size : Value := .object [(.text "type", .text "integer")]

/-- A machine has a size and a disk. -/
def machine : Value :=
  .object [(.text "type", .text "object"), (.text "properties", .object
    [(.text "size", size), (.text "disk", disk)])]

/-- The same node with its members in another order, on each level. -/
def machineTurned : Value :=
  .object [(.text "properties", .object [(.text "disk", diskTurned), (.text "size", size)]),
    (.text "type", .text "object")]

theorem keyed_pair {s t : String} (v w : Value) (h : s ≠ t) :
    Members.Keyed [(.text s, v), (.text t, w)] :=
  ⟨by simp [Scalar.isText, Scalar.text?], by simp [h]⟩

/-- Two members are alike to the same ones in the other order. -/
theorem alike_turned {s t : String} {v w v' w' : Value} (h : s ≠ t) (hv : v.Alike v')
    (hw : w.Alike w') : Value.Alike (.object [(.text s, v), (.text t, w)])
      (.object [(.text t, w'), (.text s, v')]) :=
  (keyed_pair v w h).alike_of_reordered
    ⟨[(.text s, v'), (.text t, w')], .cons ⟨rfl, hv⟩ (.cons ⟨rfl, hw⟩ .nil), .swap _ _ _⟩

theorem machine_turned : machine.Alike machineTurned := by
  have hdisk : disk.Alike diskTurned :=
    alike_turned (by decide) (.scalar _) (.list (.cons (.scalar _) (.cons (.scalar _) .nil)))
  have hsize : size.Alike size :=
    Members.Keyed.alike_of_reordered ⟨by decide, by decide⟩
      ⟨_, .cons ⟨rfl, .scalar _⟩ .nil, .refl _⟩
  exact alike_turned (by decide) (.scalar _) (alike_turned (by decide) hsize hdisk)

/-- The nodes of a machine. -/
def Part (v : Value) : Prop := v = machine ∨ v = size ∨ v = disk ∨ v = .null

theorem part_of_reaches {node : Value} (h : plain.document.Reaches machine node) : Part node := by
  refine Document.Reaches.within (.inl rfl) ?_ ?_ h
  · rintro _ schema n (rfl | rfl | rfl | rfl) hresolve <;> cases hresolve <;>
      exact .inr (.inr (.inr rfl))
  · intro node schema n hpart hresolve name inner hproperty
    have hown : ∃ own, (schema.get "properties").association = .ok own ∧ ∀ m ∈ own, Part m.2 := by
      rcases hpart with rfl | rfl | rfl | rfl <;> cases hresolve
      · exact ⟨_, rfl, List.forall_mem_cons.2 ⟨.inr (.inl rfl),
          List.forall_mem_singleton.2 (.inr (.inr (.inl rfl)))⟩⟩
      · exact ⟨_, rfl, nofun⟩
      · exact ⟨_, rfl, nofun⟩
    have hparts : (schema.get "allOf").itemsOrNone = .ok [] := by
      rcases hpart with rfl | rfl | rfl | rfl <;> cases hresolve <;> rfl
    obtain ⟨own, hown, hall⟩ := hown
    cases hproperty with
    | own h hmem =>
      cases hown.symm.trans h
      exact hall _ hmem
    | inherited h hpart =>
      cases hparts.symm.trans h
      cases hpart

theorem machine_orderFree : plain.document.OrderFree machine := by
  intro node schema n hnode hresolve
  rcases part_of_reaches hnode with rfl | rfl | rfl | rfl <;> cases hresolve <;>
    exact ⟨rfl, nofun, nofun⟩

theorem walk_machine : plain.document.Alike plain.document ∧ machine.Alike machineTurned ∧
    plain.document.OrderFree machine ∧
    (plain.walkFrom true 0 (.text "") machine).map Field.names =
      .ok [.text "disk", .text "size"] ∧
    Agree (List.Forall₂ Field.Alike) (plain.walkFrom true 0 (.text "") machine)
      ((plain.through plain.document).walkFrom true 0 (.text "") machineTurned) :=
  have hroot : plain.document.Alike plain.document := Members.alike_nil
  ⟨hroot, machine_turned, machine_orderFree, rfl,
    walkFrom_alike plain hroot machine_turned machine_orderFree true 0 (.text "")⟩

/-- A node with one property, a text. -/
def stated : Value :=
  .object [(.text "properties", .object [(.text "a", .object [(.text "type", .text "string")])])]

/-- A node whose properties are a list with an object for a pair, and that has one by a part. -/
def listed (pair : Members) : Value :=
  .object [(.text "properties", .list [.object pair]), (.text "allOf", .list [stated])]

theorem alike_single {s : String} {v w : Value} (h : v.Alike w) :
    Value.Alike (.object [(.text s, v)]) (.object [(.text s, w)]) :=
  Members.Keyed.alike_of_reordered ⟨List.forall_mem_singleton.2 rfl, List.nodup_singleton _⟩
    ⟨[(.text s, w)], .cons ⟨rfl, h⟩ .nil, .refl _⟩

/-- The nodes of a listed one: the first key names a property, whose node is the second key. -/
def ListedPart (v : Value) : Prop :=
  v = listed [(.text "a", .int 1), (.text "b", .int 2)] ∨ v = .text "b" ∨
    v = .object [(.text "type", .text "string")] ∨ v = .null

theorem listedPart_of_reaches {node : Value}
    (h : plain.document.Reaches (listed [(.text "a", .int 1), (.text "b", .int 2)]) node) :
    ListedPart node := by
  refine Document.Reaches.within (.inl rfl) ?_ ?_ h
  · rintro _ schema n (rfl | rfl | rfl | rfl) hresolve <;> cases hresolve <;>
      exact .inr (.inr (.inr rfl))
  · intro node schema n hpart hresolve name inner hproperty
    rcases hpart with rfl | rfl | rfl | rfl <;> cases hresolve
    · cases hproperty with
      | own h hmem =>
        cases h
        cases List.mem_singleton.1 hmem
        exact .inr (.inl rfl)
      | inherited h hpart hresolve hinherited hmem =>
        cases h
        cases List.mem_singleton.1 hpart
        cases hresolve
        cases hinherited
        cases List.mem_singleton.1 hmem
        exact .inr (.inr (.inl rfl))
    · cases hproperty with
      | own h hmem =>
        cases h
        cases hmem
      | inherited h hpart =>
        cases h
        cases hpart

/--
An object that stands for a pair is read by its keys: the first is the name of a property. So two
nodes that differ in the order of its members have different fields, without any enumeration.
-/
theorem walk_listed :
    (listed [(.text "a", .int 1), (.text "b", .int 2)]).Alike
      (listed [(.text "b", .int 2), (.text "a", .int 1)]) ∧
    (∀ node schema n,
      plain.document.Reaches (listed [(.text "a", .int 1), (.text "b", .int 2)]) node →
      plain.document.resolve node = .ok ⟨some schema, n⟩ →
      (schema.get "enum").members? = none ∧ Schema.PlainAlternative plain.document schema) ∧
    ¬ Agree (List.Forall₂ Field.Alike)
      (plain.walkFrom true 0 (.text "") (listed [(.text "a", .int 1), (.text "b", .int 2)]))
      (plain.walkFrom true 0 (.text "") (listed [(.text "b", .int 2), (.text "a", .int 1)])) := by
  refine ⟨?_, ?_, ?_⟩
  · have hpairs : Value.Alike (.list [.object [(.text "a", .int 1), (.text "b", .int 2)]])
        (.list [.object [(.text "b", .int 2), (.text "a", .int 1)]]) :=
      .list (.cons (alike_turned (by decide) (.scalar _) (.scalar _)) .nil)
    have hstated : Value.Alike (.list [stated]) (.list [stated]) :=
      .list (.cons (alike_single (alike_single (alike_single (.scalar _)))) .nil)
    exact (keyed_pair _ _ (by decide)).alike_of_reordered
      ⟨[(.text "properties", .list [.object [(.text "b", .int 2), (.text "a", .int 1)]]),
        (.text "allOf", .list [stated])], .cons ⟨rfl, hpairs⟩ (.cons ⟨rfl, hstated⟩ .nil), .refl _⟩
  · intro node schema n hnode hresolve
    rcases listedPart_of_reaches hnode with rfl | rfl | rfl | rfl <;> cases hresolve
    · refine ⟨rfl, fun alternatives alternative h hfirst => ?_⟩
      cases h
      cases hfirst
      rfl
    · exact ⟨rfl, nofun⟩
  · have hnone : plain.walkFrom true 0 (.text "")
        (listed [(.text "a", .int 1), (.text "b", .int 2)]) = .ok [] := rfl
    obtain ⟨f, hone⟩ : ∃ f, plain.walkFrom true 0 (.text "")
        (listed [(.text "b", .int 2), (.text "a", .int 1)]) = .ok [f] := ⟨_, rfl⟩
    rw [hnone, hone]
    rintro (h | _)
    cases h

end Sample

end Extractor

end ApiModels
