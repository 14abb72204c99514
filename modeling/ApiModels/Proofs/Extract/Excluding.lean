/-
ApiModels.Proofs.Extract.Excluding — what a policy that excludes more does to
what is extracted.

Two walks, side by side, of one node of one document, the second one under a
policy that excludes at least what the first one does. The second tree is no
part of the first: an object all of whose fields are excluded becomes a map,
and an array of such objects is left out. But each of its fields stands at
the same place of the first tree, under the same name (`Field.Covers`).

The second walk also reads less. So it may return where the first one fails:
at a property that the second policy alone excludes
(`Extractor.FailsAtExcluded`).
-/
import ApiModels.Proofs.Extract.Declared
import ApiModels.Proofs.Extract.Levels
import ApiModels.Proofs.Extract.Overrides
import ApiModels.Proofs.Field.Excluded

namespace ApiModels

open ApiModels.Field (Everywhere OccursAt Step pathTo)

/-! ## Results that match up to failures -/

namespace Result

variable {α β γ δ : Type} {R : α → β → Prop} {S : γ → δ → Prop} {B C : Failure → Prop}

/-- If the second result is a value, the first one is a value in a relation with it, or one of some
failures. -/
def UpTo (R : α → β → Prop) (B : Failure → Prop) (x : Result α) (y : Result β) : Prop :=
  ∀ b, y = .ok b → (∃ a, x = .ok a ∧ R a b) ∨ ∃ e, x = .error e ∧ B e

namespace UpTo

theorem ok {a : α} {b : β} (h : R a b) : UpTo R B (.ok a) (.ok b) := by
  intro b' hb
  cases hb
  exact .inl ⟨a, rfl, h⟩

theorem imp {S : α → β → Prop} {x : Result α} {y : Result β} (h : UpTo R B x y)
    (hRS : ∀ a b, R a b → S a b) : UpTo S B x y := by
  intro b hb
  refine (h b hb).imp_left ?_
  rintro ⟨a, ha, hR⟩
  exact ⟨a, ha, hRS a b hR⟩

theorem mono {x : Result α} {y : Result β} (h : UpTo R B x y) (hBC : ∀ e, B e → C e) :
    UpTo R C x y := by
  intro b hb
  refine (h b hb).imp_right ?_
  rintro ⟨e, he, hB⟩
  exact ⟨e, he, hBC e hB⟩

theorem bind {x : Result α} {y : Result β} {f : α → Result γ} {g : β → Result δ}
    (h : UpTo R B x y) (hf : ∀ a b, R a b → UpTo S B (f a) (g b)) :
    UpTo S B (x >>= f) (y >>= g) := by
  intro d hd
  obtain ⟨b, hb, hd⟩ := bind_eq_ok.1 hd
  rcases h b hb with ⟨a, rfl, hab⟩ | ⟨e, rfl, he⟩
  · exact hf a b hab d hd
  · exact .inr ⟨e, rfl, he⟩

/-- A step that is the same on both sides is gone through on both, if it is on the second one. -/
theorem bind_eq {x y : Result α} {f : α → Result γ} {g : α → Result δ} (h : x = y)
    (hf : ∀ a, x = .ok a → UpTo S B (f a) (g a)) : UpTo S B (x >>= f) (y >>= g) := by
  subst h
  intro d hd
  obtain ⟨a, ha, hd⟩ := bind_eq_ok.1 hd
  subst ha
  exact hf a rfl d hd

end UpTo

end Result

open ApiModels.Result (UpTo)

/-! ## Places that are covered -/

namespace Field

/-- Each field of the second list stands at the same place of the first, under the same name. -/
def Covers (fs gs : List Field) : Prop :=
  ∀ steps g, OccursAt g steps gs → ∃ f, f.name = g.name ∧ OccursAt f steps fs

/-- A field has the name of another, and covers what is in it. -/
structure CoversField (f g : Field) : Prop where
  name : f.name = g.name
  inside : ∀ step : Step, Covers (step.inside f) (step.inside g)

/-- Each field of the second list has one in the first that covers it. -/
def CoversEach (fs gs : List Field) : Prop := ∀ g ∈ gs, ∃ f ∈ fs, CoversField f g

variable {fs gs fs' gs' : List Field}

theorem covers_nil (fs : List Field) : Covers fs [] :=
  fun _ _ h => absurd h not_occursAt_nil

theorem Covers.eq_nil (h : Covers [] gs) : gs = [] := by
  cases gs with
  | nil => rfl
  | cons g gs =>
    obtain ⟨_, -, hnil⟩ := h [] g (.here List.mem_cons_self)
    exact absurd hnil not_occursAt_nil

theorem coversEach_nil (fs : List Field) : CoversEach fs [] := nofun

theorem coversEach_singleton {f g : Field} (h : CoversField f g) : CoversEach [f] [g] :=
  List.forall_mem_singleton.2 ⟨f, List.mem_singleton.2 rfl, h⟩

theorem CoversEach.append (h : CoversEach fs gs) (h' : CoversEach fs' gs') :
    CoversEach (fs ++ fs') (gs ++ gs') := by
  intro g hg
  rcases List.mem_append.1 hg with hg | hg
  · obtain ⟨f, hf, hfg⟩ := h g hg
    exact ⟨f, List.mem_append_left _ hf, hfg⟩
  · obtain ⟨f, hf, hfg⟩ := h' g hg
    exact ⟨f, List.mem_append_right _ hf, hfg⟩

/-- What is covered field by field is covered on all levels. -/
theorem CoversEach.covers (h : CoversEach fs gs) : Covers fs gs := by
  intro steps d hd
  cases steps with
  | nil =>
    obtain ⟨f, hf, hfg⟩ := h d (occursAt_nil_iff.1 hd)
    exact ⟨f, hfg.name, .here hf⟩
  | cons step steps =>
    obtain ⟨g, hg, hname, hd⟩ := occursAt_cons_iff.1 hd
    obtain ⟨f, hf, hfg⟩ := h g hg
    obtain ⟨d', hd', hoccurs⟩ := hfg.inside step steps d hd
    exact ⟨d', hd', occursAt_cons_iff.2 ⟨f, hf, hfg.name.trans hname, hoccurs⟩⟩

theorem coversField_leaf (f : Field) {info : FieldInfo} (hname : f.name = info.name) :
    CoversField f (.leaf info) :=
  ⟨hname, fun step => by cases step <;> exact covers_nil _⟩

/-! ## Paths -/

/-- A path that is not given is a name by itself. -/
theorem pathTo_eq_of_not_given {name : Scalar} {steps : List Step} :
    ∀ {path : Scalar}, (pathTo path steps name).given = false → pathTo path steps name = name := by
  induction steps with
  | nil =>
    intro path h
    unfold pathTo dotted at h ⊢
    split at h
    · simp [Scalar.given] at h
    · rename_i hnone
      rw [if_neg hnone]
  | cons step steps ih => exact fun h => ih h

end Field

namespace Policy

/-- A policy excludes what another one does and maybe more; for the rest it is the same. -/
structure ExcludesMore (p p' : Policy) : Prop where
  excluded : ∀ s : Scalar, s.isAmong p.excluded = true → s.isAmong p'.excluded = true
  setFields : p'.setFields = p.setFields
  overrides : p'.overrides = p.overrides

variable {p p' : Policy}

theorem ExcludesMore.excludes (h : p.ExcludesMore p') {name path : Scalar}
    (hexcludes : p.excludes name path = true) : p'.excludes name path = true := by
  unfold Policy.excludes at hexcludes ⊢
  rw [Bool.or_eq_true, Bool.and_eq_true] at hexcludes ⊢
  exact hexcludes.imp (h.excluded name) (And.imp_right (h.excluded path))

theorem ExcludesMore.overrideAt? (h : p.ExcludesMore p') (path : Scalar) :
    p'.overrideAt? path = p.overrideAt? path := by
  rw [Policy.overrideAt?, Policy.overrideAt?, h.overrides]

theorem ExcludesMore.isSetField (h : p.ExcludesMore p') (name : Scalar) :
    p'.isSetField name = p.isSetField name := by
  rw [Policy.isSetField, Policy.isSetField, h.overrideAt?, h.setFields]

end Policy

namespace Extractor

variable {x : Extractor} {p : Policy} {nested nested' : Nested} {path name : Scalar}
  {node : Value} {schema : Members} {required : Bool} {info : FieldInfo}

/-- A walk gives no field that the policy excludes, on any level. -/
theorem walkFrom_allowed {skip : Bool} {depth : Int} {fields : List Field}
    (h : x.walkFrom skip depth path node = .ok fields) :
    ∀ f steps, OccursAt f steps fields →
      x.policy.excludes f.name (pathTo path steps f.name) = false := by
  refine walkFrom_induction (G := fun path _ fields => ∀ f steps, OccursAt f steps fields →
    x.policy.excludes f.name (pathTo path steps f.name) = false) ?_ h
  intro nested path node fields inner hlevel f steps hf
  cases hlevel with
  | nothing => exact absurd hf Field.not_occursAt_nil
  | fields _ _ made allowed =>
    cases steps with
    | nil => exact allowed f (Field.occursAt_nil_iff.1 hf)
    | cons step steps =>
      obtain ⟨g, hg, hname, hf⟩ := Field.occursAt_cons_iff.1 hf
      obtain ⟨name, v, -, hof⟩ := made g hg
      rcases hof.inside step with hnil | ⟨v', hwalk⟩
      · rw [hnil] at hf
        exact absurd hf Field.not_occursAt_nil
      · rw [pathTo, ← hname, hof.name_eq]
        exact inner _ _ _ hwalk f steps hf

/-! ## Failures that are passed over -/

/--
The walk of a node fails so at a property, on some level, that another policy excludes and its own
does not.
-/
inductive FailsAtExcluded (x : Extractor) (p : Policy) (e : Failure) :
    Int → Scalar → Value → Prop where
  | here {depth path node name inner required}
      (hproperty : x.document.property? node name = some inner)
      (hallowed : x.policy.excludes name (dotted path name) = false)
      (hexcluded : p.excludes name (dotted path name) = true)
      (h : x.field (x.walkFrom false (depth + 1)) (dotted path name) name required inner =
        .error e) :
      FailsAtExcluded x p e depth path node
  | inside {depth path node inner v} {step : Step}
      (hproperty : x.document.property? node step.name = some inner)
      (hstep : x.document.inside? step inner = some v)
      (h : FailsAtExcluded x p e (depth + 1) (dotted path step.name) v) :
      FailsAtExcluded x p e depth path node

/-! ## One field -/

/-- A step through the field of a node leads to where something is so. -/
def Below (x : Extractor) (B : Value → Prop) (name : Scalar) (node : Value) : Prop :=
  ∃ (step : Step) (v : Value), step.name = name ∧ x.document.inside? step node = some v ∧ B v

theorem fieldInfo_under (hp : x.policy.ExcludesMore p) (refName : String) (type : SemanticType) :
    (x.under p).fieldInfo path name required refName type schema =
      x.fieldInfo path name required refName type schema := by
  unfold fieldInfo under
  rw [hp.overrideAt?]

variable {B : Value → Failure → Prop}

theorem arrayField_upTo (hp : x.policy.ExcludesMore p)
    (hnested : ∀ v, UpTo Field.Covers (B v) (nested path v) (nested' path v)) {n : String}
    (hresolve : x.document.resolve node = .ok ⟨some schema, n⟩) :
    UpTo (fun r s => Field.CoversEach r.toList s.toList)
      (fun e => x.Below (B · e) name node) (x.arrayField nested path info schema)
      ((x.under p).arrayField nested' path info schema) := by
  have hbelow : ∀ e, B (schema.get "items") e → x.Below (B · e) name node := fun e he =>
    ⟨.items name, _, rfl, Document.inside?_items name hresolve, he⟩
  unfold arrayField
  refine .bind_eq rfl fun found _ => ?_
  cases found.node with
  | none => exact .ok (Field.coversEach_nil _)
  | some items =>
    refine .bind_eq rfl fun itemType _ => ?_
    dsimp only
    rw [show (x.under p).policy.isSetField info.name = _ from hp.isSetField info.name]
    split
    · refine ((hnested _).mono hbelow).bind fun fs gs hcovers => ?_
      cases gs with
      | nil => cases fs <;> exact .ok (Field.coversEach_nil _)
      | cons g gs =>
        cases fs with
        | nil => cases hcovers.eq_nil
        | cons f fs =>
          refine .ok (Field.coversEach_singleton ⟨rfl, fun step => ?_⟩)
          cases step with
          | object n => exact Field.covers_nil _
          | items n => exact hcovers
    · exact .ok (Field.coversEach_singleton (Field.coversField_leaf _ rfl))

theorem objectField_upTo
    (hnested : ∀ v, UpTo Field.Covers (B v) (nested path v) (nested' path v)) :
    UpTo Field.CoversField (fun e => x.Below (B · e) name node)
      (x.objectField nested path info node schema)
      ((x.under p).objectField nested' path info node schema) := by
  have hbelow : ∀ e, B node e → x.Below (B · e) name node := fun e he =>
    ⟨.object name, node, rfl, rfl, he⟩
  unfold objectField
  refine ((hnested _).mono hbelow).bind fun fs gs hcovers => ?_
  cases fs with
  | nil =>
    cases hcovers.eq_nil
    exact .bind_eq rfl fun _ _ => .ok (Field.coversField_leaf _ rfl)
  | cons f fs =>
    cases gs with
    | nil =>
      intro g hg
      obtain ⟨valueType, -, hg⟩ := Result.bind_eq_ok.1 hg
      cases hg
      exact .inl ⟨_, rfl, Field.coversField_leaf _ rfl⟩
    | cons g gs =>
      refine .ok ⟨rfl, fun step => ?_⟩
      cases step with
      | object n => exact hcovers
      | items n => exact Field.covers_nil _

theorem field_upTo (hp : x.policy.ExcludesMore p)
    (hnested : ∀ v, UpTo Field.Covers (B v) (nested path v) (nested' path v)) :
    UpTo (fun r s => Field.CoversEach r.toList s.toList)
      (fun e => x.Below (B · e) name node) (x.field nested path name required node)
      ((x.under p).field nested' path name required node) := by
  unfold field
  refine .bind_eq rfl fun found hfound => ?_
  obtain ⟨schema?, n⟩ := found
  cases schema? with
  | none => exact .ok (Field.coversEach_nil _)
  | some schema =>
    have hleaf : ∀ info : FieldInfo, Field.CoversEach [.leaf info] [.leaf info] := fun _ =>
      Field.coversEach_singleton (Field.coversField_leaf _ rfl)
    refine .bind_eq rfl fun type _ => .bind_eq (fieldInfo_under hp n type).symm fun info _ => ?_
    split
    · exact .bind_eq rfl fun enum _ => .ok (hleaf _)
    · exact .ok (hleaf _)
    · exact .ok (hleaf _)
    · exact .ok (hleaf _)
    · exact arrayField_upTo hp hnested hfound
    · exact (objectField_upTo hnested).bind fun f g hfg =>
        .ok (Field.coversEach_singleton hfg)
    · exact .bind_eq rfl fun _ _ => .ok (Field.coversEach_nil _)

/-! ## The walk -/

/-- One level down, the walk under a policy that excludes more is covered by the other. -/
def CoversBelow (x : Extractor) (p : Policy) (depth : Int) : Prop :=
  ∀ path v, UpTo Field.Covers (fun e => x.FailsAtExcluded p e (depth + 1) path v)
    (x.walkFrom false (depth + 1) path v) ((x.under p).walkFrom false (depth + 1) path v)

theorem fieldsAmong_upTo (hp : x.policy.ExcludesMore p) {depth : Int}
    (below : x.CoversBelow p depth) (required : List Scalar) {members : Members}
    (hproperty : ∀ m ∈ members, x.document.property? node m.1 = some m.2) :
    UpTo Field.CoversEach
      (fun e => x.FailsAtExcluded p e depth path node)
      (x.fieldsAmong (x.walkFrom false (depth + 1)) path required members)
      ((x.under p).fieldsAmong ((x.under p).walkFrom false (depth + 1)) path required members) := by
  induction members with
  | nil => exact .ok (Field.coversEach_nil _)
  | cons m rest ih =>
    obtain ⟨name, inner⟩ := m
    obtain ⟨hfirst, hrest⟩ := List.forall_mem_cons.1 hproperty
    unfold fieldsAmong
    refine .bind_eq rfl fun inner' hextended => ?_
    cases extended_eq_ok hextended
    have hothers : ∀ first first' : Option Field,
        Field.CoversEach first.toList first'.toList →
        UpTo Field.CoversEach (fun e => x.FailsAtExcluded p e depth path node)
          (x.fieldsAmong (x.walkFrom false (depth + 1)) path required rest >>= fun others =>
            .ok (first.toList ++ others))
          ((x.under p).fieldsAmong ((x.under p).walkFrom false (depth + 1)) path required rest >>=
            fun others => .ok (first'.toList ++ others)) := fun _ _ hmade =>
      (ih hrest).bind fun others others' hothers => .ok (hmade.append hothers)
    cases hless : x.policy.excludes name (dotted path name) with
    | true =>
      have hmore : (x.under p).policy.excludes name (dotted path name) = true := hp.excludes hless
      simp only [hmore, if_true]
      exact .bind_eq rfl fun _ _ => hothers _ _ (Field.coversEach_nil _)
    | false =>
      cases hmore : (x.under p).policy.excludes name (dotted path name) with
      | true =>
        simp only [Bool.false_eq_true, if_false, if_true]
        intro fields hfields
        obtain ⟨_, -, hfields⟩ := Result.bind_eq_ok.1 hfields
        cases hfield : x.field (x.walkFrom false (depth + 1)) (dotted path name) name
            (name.isAmong required) inner with
        | ok first => exact hothers first none (Field.coversEach_nil _) fields hfields
        | error e => exact .inr ⟨e, rfl, .here hfirst hless hmore hfield⟩
      | false =>
        simp only [Bool.false_eq_true, if_false]
        refine ((field_upTo hp (below _)).mono ?_).bind hothers
        rintro e ⟨step, v, rfl, hstep, he⟩
        exact .inside hfirst hstep he

theorem fieldsOf_upTo (hp : x.policy.ExcludesMore p) {depth : Int}
    (below : x.CoversBelow p depth) (skip : Bool) :
    UpTo Field.Covers (fun e => x.FailsAtExcluded p e depth path node)
      (x.fieldsOf (x.walkFrom false (depth + 1)) skip path node)
      ((x.under p).fieldsOf ((x.under p).walkFrom false (depth + 1)) skip path node) := by
  unfold fieldsOf
  refine .bind_eq rfl fun found hfound => ?_
  obtain ⟨schema?, n⟩ := found
  cases schema? with
  | none => exact .ok (Field.covers_nil _)
  | some schema =>
    refine .bind_eq rfl fun collected hcollected => .bind_eq rfl fun sorted hsorted => ?_
    have hproperty : ∀ kept : Members, kept.Sublist sorted →
        ∀ m ∈ kept, x.document.property? node m.1 = some m.2 := fun kept hsublist m hm =>
      Document.property?_of_mem hfound hcollected
        ((sortOnKey_perm hsorted).subset (hsublist.subset hm))
    cases skip with
    | false =>
      exact (fieldsAmong_upTo hp below _ (hproperty sorted (.refl _))).imp fun _ _ h => h.covers
    | true =>
      have hkeep : x.withoutIdentifier sorted = (x.under p).withoutIdentifier sorted :=
        withoutIdentifier_congr (x := x) (y := x.under p) rfl sorted
      refine .bind_eq hkeep fun kept hkept => ?_
      exact (fieldsAmong_upTo hp below _ (hproperty kept (withoutIdentifier_sublist hkept))).imp
        fun _ _ h => h.covers

theorem walkFrom_upTo (hp : x.policy.ExcludesMore p) {levels : Nat} :
    ∀ {depth : Int}, x.levelsFrom depth = levels → ∀ (skip : Bool) (path : Scalar) (node : Value),
      UpTo Field.Covers (fun e => x.FailsAtExcluded p e depth path node)
        (x.walkFrom skip depth path node) ((x.under p).walkFrom skip depth path node) := by
  induction levels with
  | zero =>
    intro depth hlevels skip path node
    have hlevels' : (x.under p).levelsFrom depth = 0 := hlevels
    rw [walkFrom, walkFrom, hlevels, hlevels']
    exact .ok (Field.covers_nil _)
  | succ levels ih =>
    intro depth hlevels skip path node
    obtain ⟨hdepth, hnext⟩ := levelsFrom_eq_succ hlevels
    have hdepth' : depth ≤ (x.under p).maxDepth := hdepth
    rw [walkFrom_eq_fieldsOf hdepth, walkFrom_eq_fieldsOf hdepth']
    exact fieldsOf_upTo hp (fun path v => ih hnext false path v) _

/--
Under a policy that excludes more, each field of a walk stands at the same place of the walk under
the policy that excludes less, which fails only at properties that are excluded besides. No field
has a name or a path that is excluded, and item schemas have no names.
-/
theorem walkFrom_excluding (x : Extractor) {p : Policy} (hp : x.policy.ExcludesMore p)
    {skip : Bool} {depth : Int} {path : Scalar} {node : Value} {gs : List Field}
    (h : (x.under p).walkFrom skip depth path node = .ok gs) :
    (∀ fs, x.walkFrom skip depth path node = .ok fs →
      ∀ steps g, OccursAt g steps gs → ∃ f, f.name = g.name ∧ OccursAt f steps fs) ∧
    (∀ e, x.walkFrom skip depth path node = .error e → x.FailsAtExcluded p e depth path node) ∧
    ∀ steps g, OccursAt g steps gs →
      g.name.isAmong p.excluded = false ∧ (pathTo path steps g.name).isAmong p.excluded = false ∧
        ∀ i, g.item = some i → i.name = .text "" := by
  have hwalk := walkFrom_upTo hp rfl skip path node gs h
  refine ⟨fun fs hfs => ?_, fun e he => ?_, fun steps g hg => ?_⟩
  · rw [hfs] at hwalk
    obtain ⟨_, ⟨⟩, hcovers⟩ | ⟨_, ⟨⟩, -⟩ := hwalk
    exact hcovers
  · rw [he] at hwalk
    obtain ⟨_, ⟨⟩, -⟩ | ⟨_, ⟨⟩, hfails⟩ := hwalk
    exact hfails
  · have hallowed : p.excludes g.name (pathTo path steps g.name) = false :=
      walkFrom_allowed h g steps hg
    rw [Policy.excludes, Bool.or_eq_false_iff, Bool.and_eq_false_iff] at hallowed
    obtain ⟨hname, hpath⟩ := hallowed
    refine ⟨hname, ?_, fun i hi => ?_⟩
    · rcases hpath with hnone | hpath
      · rw [Field.pathTo_eq_of_not_given hnone]
        exact hname
      · exact hpath
    · have hplain := (Everywhere.of_occursAt (walkFrom_shaped h) hg).here.2
      exact congrArg FieldInfo.name (hplain i hi)

/-! ## A machine whose owner has a name alone

Without it the owner is a map of texts, and the ports, which have an address alone, are left out.
Of a node whose address cannot be read, there is a walk without the address only.
-/

namespace Sample

def ownedMachine : Value :=
  .record [("properties", .record
    [("owner", .record [("properties", .record [("name", .record [("type", .text "string")])])]),
      ("ports", .record [("type", .text "array"), ("items", .record
        [("properties", .record [("address", .record [("type", .text "string")])])])]),
      ("size", .record [("type", .text "integer")])])]

def unreadable : Value :=
  .record [("properties", .record [("address", .record [(Pointer.member, .int 5)])])]

def anonymous : Policy := { excluded := [.text "address", .text "owner.name"] }

theorem excludesMore_anonymous : Policy.ExcludesMore {} anonymous := ⟨nofun, rfl, rfl⟩

end Sample

theorem walkFrom_excluding_sample :
    Sample.bare.policy.ExcludesMore Sample.anonymous ∧
      (∃ fs gs, Sample.bare.walkFrom false 0 (.text "") Sample.ownedMachine = .ok fs ∧
        (Sample.bare.under Sample.anonymous).walkFrom false 0 (.text "") Sample.ownedMachine =
          .ok gs ∧
        fs.map (fun f => (f.name, f.kind)) =
          [(.text "owner", .object), (.text "ports", .list), (.text "size", .int64)] ∧
        gs.map (fun g => (g.name, g.kind)) = [(.text "owner", .map), (.text "size", .int64)] ∧
        (∀ steps g, OccursAt g steps gs → ∃ f, f.name = g.name ∧ OccursAt f steps fs) ∧
        ∀ steps g, OccursAt g steps gs →
          (pathTo (.text "") steps g.name).isAmong Sample.anonymous.excluded = false) ∧
      (Sample.bare.under Sample.anonymous).walkFrom false 0 (.text "") Sample.unreadable = .ok [] ∧
      Sample.bare.walkFrom false 0 (.text "") Sample.unreadable = .error .wrongShape ∧
      Sample.bare.FailsAtExcluded Sample.anonymous .wrongShape 0 (.text "") Sample.unreadable := by
  obtain ⟨fs, hfs, hkinds⟩ : ∃ fs,
      Sample.bare.walkFrom false 0 (.text "") Sample.ownedMachine = .ok fs ∧
        fs.map (fun f => (f.name, f.kind)) =
          [(.text "owner", .object), (.text "ports", .list), (.text "size", .int64)] :=
    ⟨_, rfl, by decide⟩
  obtain ⟨gs, hgs, hkinds'⟩ : ∃ gs,
      (Sample.bare.under Sample.anonymous).walkFrom false 0 (.text "") Sample.ownedMachine =
          .ok gs ∧
        gs.map (fun g => (g.name, g.kind)) = [(.text "owner", .map), (.text "size", .int64)] :=
    ⟨_, rfl, by decide⟩
  have hnone : (Sample.bare.under Sample.anonymous).walkFrom false 0 (.text "")
      Sample.unreadable = .ok [] := rfl
  have herror : Sample.bare.walkFrom false 0 (.text "") Sample.unreadable =
      .error .wrongShape := rfl
  obtain ⟨hcovers, -, hallowed⟩ := walkFrom_excluding Sample.bare Sample.excludesMore_anonymous hgs
  obtain ⟨-, hfails, -⟩ := walkFrom_excluding Sample.bare Sample.excludesMore_anonymous hnone
  refine ⟨Sample.excludesMore_anonymous, ⟨fs, gs, hfs, hgs, hkinds, hkinds', hcovers fs hfs, ?_⟩,
    hnone, herror, hfails _ herror⟩
  intro steps g hg
  obtain ⟨-, hpath, -⟩ := hallowed steps g hg
  exact hpath

end Extractor

end ApiModels
