/-
ApiModels.Proofs.Extract.Overrides — what more overrides do to what is
extracted.

Two walks, side by side, of one node of one document, the second one under
further overrides, at paths that had none and without a word on sets. Both
give the same tree but for the four flags that an override states
(`FieldInfo.Flagged`), or the same failure. One thing more is different: an
override says that an array is no set by saying nothing, so an array that is
listed as a set becomes a list if an override of its bare name is added
(`Extractor.walkFrom_added`, `Extractor.Sample.tags_turned`).
-/
import ApiModels.Field.Document
import ApiModels.Proofs.Extract.Paired
import ApiModels.Proofs.Field.Tree

namespace ApiModels

open ApiModels.Result (Agree)

/-! ## Trees that differ by flags -/

/-- Two statements on a field differ by no more than the flags that an override states. -/
inductive FieldInfo.Flagged (i : FieldInfo) : FieldInfo → Prop where
  | mk (required serverComputed forceNew useStateForUnknown : Bool) :
      FieldInfo.Flagged i { i with required, serverComputed, forceNew, useStateForUnknown }

/-- A set of some names is a list. -/
def FieldInfo.turn (turned : Scalar → Bool) (i : FieldInfo) : FieldInfo :=
  { i with kind := if i.kind = .set ∧ turned i.name = true then .list else i.kind }

theorem FieldInfo.Flagged.kind_eq {i j : FieldInfo} (h : i.Flagged j) : j.kind = i.kind := by
  cases h
  rfl

namespace Field

/-- Two trees differ by flags, and by sets of some names, which are lists in the second one. -/
inductive Turned (turned : Scalar → Bool) : Field → Field → Prop where
  | mk {f g : Field} (info : (f.toFieldInfo.turn turned).Flagged g.toFieldInfo)
      (item : Option.Rel (Turned turned) f.item g.item)
      (properties : List.Forall₂ (Turned turned) f.properties g.properties) : Turned turned f g

/-- Two trees have the same form and the same kinds on every level. -/
inductive SameKinds : Field → Field → Prop where
  | mk {f g : Field} (kind : f.kind = g.kind) (item : Option.Rel SameKinds f.item g.item)
      (properties : List.Forall₂ SameKinds f.properties g.properties) : SameKinds f g

end Field

theorem FieldInfo.turn_eq_self {i : FieldInfo} (h : i.kind ≠ .set) (turned : Scalar → Bool) :
    i.turn turned = i := by
  rw [turn, if_neg fun hset => h hset.1]

namespace Field

theorem kinds_eq_of_sameKinds {fs gs : List Field} (h : List.Forall₂ SameKinds fs gs) :
    fs.map (·.kind) = gs.map (·.kind) := by
  induction h with
  | nil => rfl
  | cons hfg _ ih =>
    cases hfg with
    | mk kind => rw [List.map_cons, List.map_cons, kind, ih]

/-- Of lists that correspond, a second correspondence is a statement on the first list. -/
theorem forall₂_iff_forall {R S : Field → Field → Prop} {P : Field → Prop} {fs gs : List Field}
    (h : List.Forall₂ R fs gs) (hiff : ∀ f ∈ fs, ∀ g, R f g → (S f g ↔ P f)) :
    List.Forall₂ S fs gs ↔ ∀ f ∈ fs, P f := by
  induction h with
  | nil => exact ⟨fun _ => nofun, fun _ => .nil⟩
  | cons hfg _ ih =>
    obtain ⟨hfirst, hrest⟩ := List.forall_mem_cons.1 hiff
    rw [List.forall₂_cons, List.forall_mem_cons, hfirst _ hfg, ih hrest]

theorem rel_iff_forall {R S : Field → Field → Prop} {P : Field → Prop} {f g : Option Field}
    (h : Option.Rel R f g) (hiff : ∀ i, f = some i → ∀ j, R i j → (S i j ↔ P i)) :
    Option.Rel S f g ↔ ∀ i, f = some i → P i := by
  cases h with
  | none =>
    refine ⟨fun _ i hi => ?_, fun _ => .none⟩
    cases hi
  | some h =>
    rw [Option.rel_some_some, hiff _ rfl _ h]
    exact ⟨fun hP i hi => Option.some.inj hi ▸ hP, fun hP => hP _ rfl⟩

theorem Turned.kind_eq {turned : Scalar → Bool} {f g : Field} (h : Turned turned f g) :
    g.kind = if f.kind = .set ∧ turned f.name = true then .list else f.kind := by
  cases h with
  | mk info => exact info.kind_eq

/-- Trees that differ so have the same kinds exactly if none has a set of such a name. -/
theorem Turned.sameKinds_iff {turned : Scalar → Bool} {f : Field} : ∀ {g : Field},
    Turned turned f g →
      (SameKinds f g ↔ Everywhere (fun f => f.kind = .set → turned f.name = false) f) := by
  induction f with
  | mk info item properties ihItem ihProperties =>
    intro g h
    have hkind := h.kind_eq
    obtain ⟨-, hitem, hproperties⟩ := h
    have hitem' := rel_iff_forall hitem fun i hi j hij => ihItem i hi hij
    have hproperties' := forall₂_iff_forall hproperties fun f hf g hfg => ihProperties f hf hfg
    constructor
    · rintro ⟨hsame, hitem, hproperties⟩
      refine .intro (fun hset => ?_) (hitem'.1 hitem) (hproperties'.1 hproperties)
      rw [Bool.eq_false_iff]
      intro hturned
      rw [if_pos ⟨hset, hturned⟩, ← hsame, hset] at hkind
      cases hkind
    · rintro ⟨here, hitem, hproperties⟩
      refine ⟨?_, hitem'.2 hitem, hproperties'.2 hproperties⟩
      rw [hkind, if_neg fun h => Bool.false_ne_true ((here h.1).symm.trans h.2)]

end Field

/-! ## Policies -/

namespace Policy

/-- A policy excludes what another one does, and has its sets but for some names. -/
structure Turns (p p' : Policy) (turned : Scalar → Bool) : Prop where
  excludes : ∀ name path, p'.excludes name path = p.excludes name path
  isSetField : ∀ name, p'.isSetField name = (p.isSetField name && !turned name)

/-- What is stated of a path does not mention sets. -/
def SilentOnSets (v : Value) : Prop :=
  ∀ ms, v.membersOrNone = .ok ms → ms.get? "set" = none

theorem overridesOf_append {ms added : Members} :
    ∀ {overrides : List (Scalar × FieldOverride)}, overridesOf (ms ++ added) = .ok overrides →
      ∃ first second, overridesOf ms = .ok first ∧ overridesOf added = .ok second ∧
        overrides = first ++ second := by
  induction ms with
  | nil => exact fun h => ⟨[], _, rfl, h, rfl⟩
  | cons m rest ih =>
    intro overrides h
    simp only [List.cons_append, overridesOf, Result.bind_eq_ok] at h
    obtain ⟨o, ho, others, hothers, h⟩ := h
    obtain ⟨first, second, hfirst, hsecond, rfl⟩ := ih hothers
    cases h
    refine ⟨(m.1, o) :: first, second, ?_, hsecond, rfl⟩
    simp only [overridesOf, Result.bind_eq_ok]
    exact ⟨o, ho, first, hfirst, rfl⟩

/-- Overrides are found at the paths at which something is stated, and only there. -/
theorem find?_isSome_overridesOf {ms : Members} (path : Scalar) :
    ∀ {overrides : List (Scalar × FieldOverride)}, overridesOf ms = .ok overrides →
      (overrides.find? fun o => o.1.same path).isSome = (ms.lookup path).isSome := by
  induction ms with
  | nil =>
    intro overrides h
    cases h
    rfl
  | cons m rest ih =>
    intro overrides h
    simp only [overridesOf, Result.bind_eq_ok] at h
    obtain ⟨o, -, others, hothers, h⟩ := h
    cases h
    have hrest := ih hothers
    rw [Members.lookup, Option.isSome_map] at hrest ⊢
    rw [List.find?_cons, List.find?_cons]
    cases m.1.same path with
    | true => rfl
    | false => exact hrest

theorem set_eq_false_of_silent {ms : Members} :
    ∀ {overrides : List (Scalar × FieldOverride)}, (∀ m ∈ ms, SilentOnSets m.2) →
      overridesOf ms = .ok overrides → ∀ o ∈ overrides, o.2.set = false := by
  induction ms with
  | nil =>
    intro overrides _ h
    cases h
    exact nofun
  | cons m rest ih =>
    intro overrides hsilent h
    obtain ⟨hfirst, hrest⟩ := List.forall_mem_cons.1 hsilent
    simp only [overridesOf, Result.bind_eq_ok] at h
    obtain ⟨o, ho, others, hothers, h⟩ := h
    cases h
    refine List.forall_mem_cons.2 ⟨?_, ih hrest hothers⟩
    simp only [FieldOverride.ofValue, Result.bind_eq_ok] at ho
    obtain ⟨stated, hstated, ho⟩ := ho
    cases ho
    show (Members.get stated "set").given = false
    rw [Members.get, hfirst stated hstated]
    rfl

theorem ofValues_object {excluded setFields : Value} {ms : Members} {p : Policy}
    (h : ofValues excluded setFields (.object ms) = .ok p) :
    excluded.names = .ok p.excluded ∧ setFields.names = .ok p.setFields ∧
      overridesOf ms = .ok p.overrides := by
  have hmembers : (Value.object ms).membersOrNone = .ok ms := by
    cases ms <;> rfl
  simp only [ofValues, hmembers, Result.bind_eq_ok] at h
  obtain ⟨names, hnames, sets, hsets, _, hms, overrides, hoverrides, h⟩ := h
  cases hms
  cases h
  exact ⟨hnames, hsets, hoverrides⟩

/-- Overrides that are added where none were, and do not mention sets, turn the sets they name. -/
theorem turns_of_added {excluded setFields : Value} {ms added : Members} {p p' : Policy}
    (hp : ofValues excluded setFields (.object ms) = .ok p)
    (hp' : ofValues excluded setFields (.object (ms ++ added)) = .ok p')
    (hsilent : ∀ m ∈ added, SilentOnSets m.2)
    (hnew : ∀ path, (added.lookup path).isSome = true → ms.lookup path = none) :
    p.Turns p' fun name => (added.lookup name).isSome := by
  obtain ⟨hexcluded, hsets, hfirst⟩ := ofValues_object hp
  obtain ⟨hexcluded', hsets', hboth⟩ := ofValues_object hp'
  obtain ⟨first, second, hfirst', hsecond, hoverrides⟩ := overridesOf_append hboth
  cases hfirst.symm.trans hfirst'
  have hfoundFirst := fun name => find?_isSome_overridesOf name hfirst
  have hfoundSecond := fun name => find?_isSome_overridesOf name hsecond
  refine ⟨fun name path => ?_, fun name => ?_⟩
  · rw [excludes, excludes, Except.ok.inj (hexcluded.symm.trans hexcluded')]
  · rw [isSetField, isSetField, overrideAt?, overrideAt?, hoverrides, List.find?_append,
      Except.ok.inj (hsets.symm.trans hsets')]
    cases hname : (added.lookup name).isSome with
    | true =>
      have hnone : (p.overrides.find? fun o => o.1.same name) = none := by
        rw [← Option.not_isSome_iff_eq_none, hfoundFirst, hnew name hname]
        exact Bool.false_ne_true
      obtain ⟨o, ho⟩ := Option.isSome_iff_exists.1 ((hfoundSecond name).trans hname)
      rw [hnone, ho, Bool.not_true, Bool.and_false]
      exact set_eq_false_of_silent hsilent hsecond o (List.mem_of_find?_eq_some ho)
    | false =>
      have hnone : (second.find? fun o => o.1.same name) = none := by
        rw [← Option.not_isSome_iff_eq_none, hfoundSecond, hname]
        exact Bool.false_ne_true
      rw [hnone, Option.or_none, Bool.not_false, Bool.and_true]

end Policy

namespace Extractor

variable {x : Extractor} {p : Policy} {turned : Scalar → Bool} {path name : Scalar}
  {schema : Members}

/-- The same extractor under another policy. -/
def under (x : Extractor) (p : Policy) : Extractor := { x with policy := p }

theorem fieldInfo_flagged (required : Bool) (refName : String) (type : SemanticType) :
    Agree (fun i j => i.Flagged j ∧ i.kind ≠ .set)
      (x.fieldInfo path name required refName type schema)
      ((x.under p).fieldInfo path name required refName type schema) := by
  unfold fieldInfo
  refine .bind_eq rfl fun description _ => .bind_eq rfl fun minimum _ =>
    .bind_eq rfl fun maximum _ => .ok ?_
  have hkind : ∀ t : SemanticType, AttrKind.ofType t ≠ .set := by
    intro t
    cases t <;> exact nofun
  cases x.policy.overrideAt? path <;> cases (x.under p).policy.overrideAt? path <;>
    exact ⟨.mk _ _ _ _, hkind _⟩

theorem readsPaired_under (x : Extractor) (p : Policy) : ReadsPaired x (x.under p) Eq Eq Eq where
  resolve := by
    rintro v _ rfl
    refine .of_eq rfl fun r _ => ⟨?_, rfl⟩
    cases r.node with
    | none => exact .none
    | some schema => exact .some rfl
  type := by
    rintro schema _ rfl
    rfl
  texts := by
    rintro schema _ rfl
    rfl
  values := by
    rintro schema _ rfl name
    rfl
  items := by
    rintro schema _ rfl
    rfl
  properties := by
    rintro schema _ rfl
    have hself := Schema.propertyBy_self (N := Eq) fun _ => rfl
    exact .of_eq rfl fun r _ => ⟨.of_eq rfl fun sorted _ => hself sorted, fun _ => rfl⟩

theorem statesPaired_turned (hp : x.policy.Turns p turned) :
    StatesPaired x (x.under p) Eq Eq (fun i j => i.Flagged j ∧ i.kind ≠ .set)
      (fun i j => (i.turn turned).Flagged j) (Field.Turned turned) where
  excludes := hp.excludes
  identifier := rfl
  info := by
    rintro schema _ rfl n _ rfl path name required type
    exact fieldInfo_flagged required n type
  name := by
    rintro _ _ ⟨⟨⟩, -⟩
    rfl
  type := by
    rintro _ _ ⟨⟨⟩, -⟩
    rfl
  scalar := by
    rintro i j ⟨hflagged, hset⟩
    rwa [FieldInfo.turn_eq_self hset]
  text := by
    rintro i _ ⟨⟨⟩, hset⟩ enum
    rw [FieldInfo.turn_eq_self (i := { i with enum }) hset]
    exact .mk ..
  map := by
    rintro i _ ⟨⟨⟩, -⟩ itemType
    exact .mk ..
  array := by
    rintro i _ ⟨⟨⟩, -⟩ n _ rfl itemType
    -- Nowhere else is a policy asked about sets, and it is asked by the bare name.
    have hkind : (if (x.under p).policy.isSetField i.name then AttrKind.set else .list) =
        if (if x.policy.isSetField i.name then AttrKind.set else .list) = .set ∧
            turned i.name = true then .list
          else if x.policy.isSetField i.name then .set else .list := by
      rw [under, hp.isSetField]
      cases x.policy.isSetField i.name <;> cases turned i.name <;> rfl
    dsimp only
    rw [hkind]
    exact .mk ..
  item := by
    rintro n _ rfl
    exact .mk ..
  field := .mk

/-! ## The walk -/

theorem walkFrom_turned (hp : x.policy.Turns p turned) (skip : Bool) (depth : Int) (path : Scalar)
    (node : Value) :
    Agree (List.Forall₂ (Field.Turned turned)) (x.walkFrom skip depth path node)
      ((x.under p).walkFrom skip depth path node) :=
  walkFrom_paired (readsPaired_under x p) (statesPaired_turned hp) rfl rfl skip depth path

/--
Overrides that are added at paths that had none, and do not mention sets, change nothing but flags,
and what is a set by its name: it becomes a list if one of them is added under that name. So no
kind changes exactly if no such set is extracted.
-/
theorem walkFrom_added (x : Extractor) {excluded setFields : Value} {ms added : Members}
    {p p' : Policy} (hp : Policy.ofValues excluded setFields (.object ms) = .ok p)
    (hp' : Policy.ofValues excluded setFields (.object (ms ++ added)) = .ok p')
    (hsilent : ∀ m ∈ added, Policy.SilentOnSets m.2)
    (hnew : ∀ path, (added.lookup path).isSome = true → ms.lookup path = none)
    (skip : Bool) (depth : Int) (path : Scalar) (node : Value) :
    Agree (fun fs gs =>
        List.Forall₂ (Field.Turned fun name => (added.lookup name).isSome) fs gs ∧
        (List.Forall₂ Field.SameKinds fs gs ↔ ∀ f ∈ fs, Field.Everywhere
          (fun f => f.kind = .set → (added.lookup f.name).isSome = false) f))
      ((x.under p).walkFrom skip depth path node) ((x.under p').walkFrom skip depth path node) := by
  have hturns : (x.under p).policy.Turns p' fun name => (added.lookup name).isSome :=
    Policy.turns_of_added hp hp' hsilent hnew
  have hwalk := walkFrom_turned hturns skip depth path node
  exact hwalk.imp fun fs gs h =>
    ⟨h, Field.forall₂_iff_forall h fun f _ g hfg => hfg.sameKinds_iff⟩

/-! ## A machine with tags

Its labels and its tags are sets. An override states that the size must be given, or another one
that the tags are the server's.
-/

namespace Sample

def textItems : Value :=
  .record [("type", .text "array"), ("items", .record [("type", .text "string")])]

def tagged : Value :=
  .record [("properties", .record
    [("labels", textItems), ("size", .record [("type", .text "integer")]), ("tags", textItems)])]

def setNames : Value := .texts ["labels", "tags"]

def requiredSize : Members := [(.text "size", .record [("required", .bool true)])]

def computedTags : Members := [(.text "tags", .record [("computed", .bool true)])]

def bare : Extractor := { document := ⟨[], []⟩ }

theorem silent_requiredSize : ∀ m ∈ requiredSize, Policy.SilentOnSets m.2 := by
  refine List.forall_mem_singleton.2 fun ms h => ?_
  cases h
  rfl

theorem silent_computedTags : ∀ m ∈ computedTags, Policy.SilentOnSets m.2 := by
  refine List.forall_mem_singleton.2 fun ms h => ?_
  cases h
  rfl

/-- An override that does not mention sets makes a list of the tags, which are listed as a set. -/
theorem tags_turned :
    ∃ p p' fs gs, Policy.ofValues .null setNames (.object []) = .ok p ∧
      Policy.ofValues .null setNames (.object ([] ++ computedTags)) = .ok p' ∧
      (∀ m ∈ computedTags, Policy.SilentOnSets m.2) ∧
      (bare.under p).walkFrom false 0 (.text "") tagged = .ok fs ∧
      (bare.under p').walkFrom false 0 (.text "") tagged = .ok gs ∧
      fs.map (fun f => (f.name, f.kind)) =
        [(.text "labels", .set), (.text "size", .int64), (.text "tags", .set)] ∧
      gs.map (fun f => (f.name, f.kind)) =
        [(.text "labels", .set), (.text "size", .int64), (.text "tags", .list)] ∧
      ¬ List.Forall₂ Field.SameKinds fs gs := by
  refine ⟨_, _, _, _, rfl, rfl, silent_computedTags, rfl, rfl, by decide, by decide, fun h => ?_⟩
  exact absurd (Field.kinds_eq_of_sameKinds h) (by decide)

end Sample

theorem walkFrom_added_sample :
    ∃ p p' fs gs, Policy.ofValues .null Sample.setNames (.object []) = .ok p ∧
      Policy.ofValues .null Sample.setNames (.object ([] ++ Sample.requiredSize)) = .ok p' ∧
      (∀ m ∈ Sample.requiredSize, Policy.SilentOnSets m.2) ∧
      (∀ path, (Sample.requiredSize.lookup path).isSome = true →
        Members.lookup [] path = none) ∧
      (Sample.bare.under p).walkFrom false 0 (.text "") Sample.tagged = .ok fs ∧
      (Sample.bare.under p').walkFrom false 0 (.text "") Sample.tagged = .ok gs ∧
      fs.map (fun f => (f.name, f.required)) =
        [(.text "labels", false), (.text "size", false), (.text "tags", false)] ∧
      gs.map (fun f => (f.name, f.required)) =
        [(.text "labels", false), (.text "size", true), (.text "tags", false)] ∧
      List.Forall₂ Field.SameKinds fs gs := by
  have hp : Policy.ofValues .null Sample.setNames (.object []) = .ok _ := rfl
  have hp' : Policy.ofValues .null Sample.setNames (.object ([] ++ Sample.requiredSize)) = .ok _ :=
    rfl
  have hnew : ∀ path, (Sample.requiredSize.lookup path).isSome = true →
      Members.lookup [] path = none := fun _ _ => rfl
  have hagree := walkFrom_added Sample.bare hp hp' Sample.silent_requiredSize hnew false 0
    (.text "") Sample.tagged
  refine ⟨_, _, _, _, hp, hp', Sample.silent_requiredSize, hnew, rfl, rfl, by decide, by decide, ?_⟩
  exact hagree.of_ok.2.2 (by decide)

end Extractor

end ApiModels
