/-
ApiModels.Proofs.Extract.Bounds — the bounds that fields take over.

A property may state a least and a greatest value (`Limit`). Which property
counts for a field is a matter of its place: `Document.propertyAt?` is the
one that stands at the end of some steps from a node. A field of a walk was
made of the property at its own place (`walkFrom_bounds`).

Bounds are stored as doubles, so a whole number becomes the double nearest
to it (`bounds_nearest`). Bounds keep their order, and those that are doubles
themselves are kept exactly; of the others different ones may become the same
(`merged_bounds`).
-/
import ApiModels.Field.Document
import ApiModels.Proofs.Extract.Declared
import ApiModels.Proofs.Field.Tree
import ApiModels.Proofs.Number.Nearest

namespace ApiModels

/-! ## Properties and their limits -/

/-- What a property states of the values that it takes. -/
inductive Limit where
  | minimum
  | maximum
  deriving DecidableEq, Repr

namespace Limit

/-- The member of a property that states a limit, and of a field as an object. -/
def key : Limit → String
  | .minimum => "minimum"
  | .maximum => "maximum"

/-- The limit that a field has. -/
def of : Limit → FieldInfo → Option Binary64
  | .minimum, info => info.minimum
  | .maximum, info => info.maximum

end Limit

namespace Document

open ApiModels.Field (Step)

/-- The property at the end of some steps from a node. -/
def propertyAt? (d : Document) : Value → List Step → Scalar → Option Members
  | node, [], name => (d.property? node name).bind d.schemaAt?
  | node, step :: steps, name =>
    (d.property? node step.name).bind fun inner =>
      (d.inside? step inner).bind fun v => d.propertyAt? v steps name

/-- What the property at the end of some steps states as a limit. -/
def boundAt? (d : Document) (node : Value) (steps : List Step) (name : Scalar) (limit : Limit) :
    Option Value :=
  (d.propertyAt? node steps name).map (·.get limit.key)

end Document

/-- A field has the limits that a property states. -/
def FieldInfo.LimitedBy (info : FieldInfo) (property : Members) : Prop :=
  ∀ limit : Limit, Schema.bound (property.get limit.key) = .ok (limit.of info)

theorem FieldInfo.LimitedBy.of_eq {info info' : FieldInfo} {property : Members}
    (h : info.LimitedBy property) (hminimum : info'.minimum = info.minimum)
    (hmaximum : info'.maximum = info.maximum) : info'.LimitedBy property := by
  intro limit
  rw [h limit]
  cases limit with
  | minimum => exact congrArg Except.ok hminimum.symm
  | maximum => exact congrArg Except.ok hmaximum.symm

/-! ## Where the limits of a field come from -/

namespace Extractor

open ApiModels.Field (OccursAt Step)

variable {x : Extractor} {nested : Nested} {path name : Scalar} {node : Value} {schema : Members}

theorem fieldInfo_limited {required : Bool} {refName : String} {type : SemanticType}
    {info : FieldInfo} (h : x.fieldInfo path name required refName type schema = .ok info) :
    info.LimitedBy schema := by
  simp only [fieldInfo, Result.bind_eq_ok] at h
  obtain ⟨description, -, minimum, hminimum, maximum, hmaximum, h⟩ := h
  cases ho : x.policy.overrideAt? path <;>
  · rw [ho] at h
    cases h
    intro limit
    cases limit with
    | minimum => exact hminimum
    | maximum => exact hmaximum

theorem arrayField_limited {info : FieldInfo} {f : Field} (hinfo : info.LimitedBy schema)
    (h : x.arrayField nested path info schema = .ok (some f)) :
    f.toFieldInfo.LimitedBy schema := by
  simp only [arrayField, Result.bind_eq_ok] at h
  obtain ⟨⟨found, refName⟩, -, h⟩ := h
  cases found with
  | none => cases h
  | some itemSchema =>
    obtain ⟨itemType, -, h⟩ := Result.bind_eq_ok.1 h
    split at h
    · obtain ⟨fields, -, h⟩ := Result.bind_eq_ok.1 h
      cases fields with
      | nil => cases h
      | cons g gs =>
        cases h
        exact hinfo.of_eq rfl rfl
    · cases h
      exact hinfo.of_eq rfl rfl

theorem objectField_limited {info : FieldInfo} {f : Field} (hinfo : info.LimitedBy schema)
    (h : x.objectField nested path info node schema = .ok f) : f.toFieldInfo.LimitedBy schema := by
  obtain ⟨fields, -, h⟩ := Result.bind_eq_ok.1 h
  cases fields with
  | nil =>
    obtain ⟨valueType, -, h⟩ := Result.bind_eq_ok.1 h
    cases h
    exact hinfo.of_eq rfl rfl
  | cons g gs =>
    cases h
    exact hinfo

/-- The field of a property has the limits that the property states. -/
theorem field_limited {required : Bool} {f : Field}
    (h : x.field nested path name required node = .ok (some f)) :
    ∃ property n, x.document.resolve node = .ok ⟨some property, n⟩ ∧
      f.toFieldInfo.LimitedBy property := by
  simp only [field, Result.bind_eq_ok] at h
  obtain ⟨⟨found, n⟩, hresolve, h⟩ := h
  cases found with
  | none => cases h
  | some property =>
    refine ⟨property, n, hresolve, ?_⟩
    simp only [Result.bind_eq_ok] at h
    obtain ⟨type, -, info, hinfo, h⟩ := h
    have hlimited := fieldInfo_limited hinfo
    cases htype : info.type with
    | string =>
      simp only [htype, Result.bind_eq_ok] at h
      obtain ⟨enum, -, h⟩ := h
      cases h
      exact hlimited.of_eq rfl rfl
    | integer | boolean | number =>
      simp only [htype, Except.ok.injEq, Option.some.injEq] at h
      exact h ▸ hlimited
    | array =>
      simp only [htype] at h
      exact arrayField_limited hlimited h
    | object =>
      simp only [htype, Result.bind_eq_ok, Except.ok.injEq, Option.some.injEq] at h
      obtain ⟨g, hobject, rfl⟩ := h
      exact objectField_limited hlimited hobject
    | unknown =>
      simp only [htype, Result.bind_eq_ok] at h
      obtain ⟨_, -, h⟩ := h
      cases h

/-- Each field of a walk has the limits that the property at its place states. -/
theorem walkFrom_bounds {skip : Bool} {depth : Int} {fields : List Field}
    (h : x.walkFrom skip depth path node = .ok fields) :
    ∀ steps f, OccursAt f steps fields →
      ∃ property, x.document.propertyAt? node steps f.name = some property ∧
        f.toFieldInfo.LimitedBy property := by
  refine walkFrom_levels (G := fun _ node fields => ∀ steps f, OccursAt f steps fields →
    ∃ property, x.document.propertyAt? node steps f.name = some property ∧
      f.toFieldInfo.LimitedBy property)
    (fun _ _ _ _ hf => absurd hf Field.not_occursAt_nil) ?_ h
  intro nested skip path node fields inner h steps d hd
  cases steps with
  | nil =>
    obtain ⟨v, required, hproperty, hfield⟩ :=
      fieldsOf_property h d (Field.occursAt_nil_iff.1 hd)
    obtain ⟨property, n, hresolve, hlimited⟩ := field_limited hfield
    refine ⟨property, ?_, hlimited⟩
    rw [Document.propertyAt?, hproperty]
    exact Document.schemaAt?_eq hresolve
  | cons step steps =>
    obtain ⟨f, hf, hname, hd⟩ := Field.occursAt_cons_iff.1 hd
    obtain ⟨v, required, hproperty, hfield⟩ := fieldsOf_property h f hf
    rcases (field_spec hfield).inside_eq step with hnil | ⟨w, hstep, hwalk⟩
    · rw [hnil] at hd
      exact absurd hd Field.not_occursAt_nil
    · obtain ⟨property, hat, hlimited⟩ := inner _ _ _ hwalk steps d hd
      refine ⟨property, ?_, hlimited⟩
      rw [Document.propertyAt?, ← hname, hproperty, Option.bind_some, hstep]
      exact hat

/-! ## Whole numbers as bounds -/

/-- A field of a walk is that of a property that states a whole number as a limit. -/
inductive BoundedBy (x : Extractor) (limit : Limit) (n : Int) (f : Field) : Prop where
  | intro {skip depth path node fields steps}
      (hwalk : x.walkFrom skip depth path node = .ok fields) (hf : OccursAt f steps fields)
      (hbound : x.document.boundAt? node steps f.name limit = some (.int n))

end Extractor

theorem Schema.bound_int {n : Int} {v : Option Binary64} (h : Schema.bound (.int n) = .ok v) :
    ∃ w, v = some w ∧ Binary64.ofInt? n = some w := by
  rw [bound] at h
  cases hn : Binary64.ofInt? n with
  | none => simp [hn] at h
  | some w =>
    simp only [hn, Except.ok.injEq] at h
    exact ⟨w, h.symm, rfl⟩

/-- As an object a field states its limits as they are. -/
theorem Field.document_limit (f : Field) (limit : Limit) :
    ∃ members, f.document = .object members ∧
      Members.get members limit.key = .optionalFloat (limit.of f.toFieldInfo) := by
  obtain ⟨info, item, properties⟩ := f
  refine ⟨_, by rw [Field.document, Value.record], ?_⟩
  cases limit <;> rfl

namespace Extractor

open ApiModels.Field (OccursAt Step)

variable {x : Extractor} {limit : Limit} {n : Int} {f : Field}

/-- The limit of a field is the double that the number of its property is turned into. -/
theorem BoundedBy.ofInt? (h : x.BoundedBy limit n f) :
    ∃ v, limit.of f.toFieldInfo = some v ∧ Binary64.ofInt? n = some v := by
  obtain ⟨hwalk, hf, hbound⟩ := h
  obtain ⟨property, hproperty, hlimited⟩ := walkFrom_bounds hwalk _ _ hf
  rw [Document.boundAt?, hproperty] at hbound
  have hstated : property.get limit.key = .int n := Option.some.inj hbound
  exact Schema.bound_int (hstated ▸ hlimited limit)

/--
A whole number up to the greatest double can be a bound. The field of a property that states it has
the double nearest to it, and states that as an object. The double is the number exactly if that is
a double itself. Bounds keep their order, also those of different documents, and two of them that
are doubles themselves stay different.
-/
theorem bounds_nearest (x : Extractor) (limit : Limit) (n : Int) :
    (n.natAbs ≤ Binary64.greatestWhole → ∃ v, Schema.bound (.int n) = .ok (some v)) ∧
    ∀ f, x.BoundedBy limit n f →
      ∃ v, limit.of f.toFieldInfo = some v ∧
        (∃ members, f.document = .object members ∧
          Members.get members limit.key = .float v) ∧
        v.IsNearest n ∧ (v.equalsInt n = true ↔ Binary64.IsWhole n) ∧
        (n.natAbs ≤ 2 ^ Binary64.precision → v.equalsInt n = true) ∧
        ∀ y limit' n' f' v', Extractor.BoundedBy y limit' n' f' →
          limit'.of f'.toFieldInfo = some v' →
          (n ≤ n' → v.value ≤ v'.value) ∧
          (Binary64.IsWhole n → Binary64.IsWhole n' → n ≠ n' → v.value ≠ v'.value) := by
  refine ⟨fun hrange => ?_, fun f h => ?_⟩
  · obtain ⟨v, hv⟩ := Binary64.ofInt?_isSome hrange
    exact ⟨v, by rw [Schema.bound, hv]⟩
  · obtain ⟨v, hlimit, hv⟩ := h.ofInt?
    obtain ⟨members, hdocument, hmember⟩ := f.document_limit limit
    have hexact := Binary64.equalsInt_iff_isWhole hv
    rw [hlimit] at hmember
    refine ⟨v, hlimit, ⟨members, hdocument, hmember⟩, Binary64.ofInt?_isNearest hv, hexact,
      fun hsmall => hexact.2 (Binary64.isWhole_of_natAbs_le hsmall), ?_⟩
    intro y limit' n' f' v' h' hlimit'
    obtain ⟨w, hw, hv'⟩ := h'.ofInt?
    cases hlimit'.symm.trans hw
    refine ⟨Binary64.value_le_value hv hv', fun hwhole hwhole' hne => ?_⟩
    exact Binary64.value_ne_value hv hv' hwhole hwhole' hne

namespace Sample

/-- An extractor from nodes without references. -/
def sizing : Extractor := { document := ⟨[], []⟩ }

/-- A node with a size between two neighbours, of which only the first one is a double. -/
def sized : Value :=
  .record [("properties", .record [("size", .record [("type", .text "integer"),
    ("minimum", .int 9007199254740992), ("maximum", .int 9007199254740993)])])]

/-- The bounds of the size differ in the schema, but not in the field: both are the first one. -/
theorem merged_bounds : ∃ f, sizing.walkFrom false 0 (.text "") sized = .ok [f] ∧
    sizing.document.boundAt? sized [] f.name .minimum = some (.int 9007199254740992) ∧
    sizing.document.boundAt? sized [] f.name .maximum = some (.int 9007199254740993) ∧
    ∃ v, f.minimum = some v ∧ f.maximum = some v ∧ v.equalsInt 9007199254740992 = true ∧
      v.equalsInt 9007199254740993 = false := by
  exact ⟨_, rfl, rfl, rfl, _, rfl, rfl, rfl, rfl⟩

/-- A node with a list of parts, whose sizes lie between two doubles. -/
def parted : Value :=
  .record [("properties", .record [("parts", .record [("type", .text "array"),
    ("items", .record [("properties", .record [("size", .record [("type", .text "integer"),
      ("minimum", .int (-5)), ("maximum", .int 9223372036854775808)])])])])])]

theorem parted_bounded : ∃ f, sizing.BoundedBy .minimum (-5) f ∧
    sizing.BoundedBy .maximum 9223372036854775808 f := by
  obtain ⟨f, g, i, hwalk, hname, hitem, hproperties, hsize⟩ : ∃ f g i : Field,
      sizing.walkFrom false 0 (.text "") parted = .ok [g] ∧ g.name = .text "parts" ∧
      g.item = some i ∧ i.properties = [f] ∧ f.name = .text "size" :=
    ⟨_, _, _, rfl, rfl, rfl, rfl, rfl⟩
  have hf : OccursAt f [.items g.name] [g] :=
    .items List.mem_cons_self hitem (.here (hproperties ▸ List.mem_cons_self))
  refine ⟨f, .intro hwalk hf ?_, .intro hwalk hf ?_⟩ <;>
  · rw [hname, hsize]
    rfl

end Sample

theorem bounds_nearest_sample :
    (∃ v, Schema.bound (.int 9223372036854775808) = .ok (some v)) ∧
    ∃ f v v', Sample.sizing.BoundedBy .minimum (-5) f ∧
      Sample.sizing.BoundedBy .maximum 9223372036854775808 f ∧
      f.minimum = some v ∧ f.maximum = some v' ∧ v.IsNearest (-5 : Int) ∧
      v.equalsInt (-5) = true ∧ v'.equalsInt 9223372036854775808 = true ∧
      v.value ≤ v'.value ∧ v.value ≠ v'.value := by
  obtain ⟨f, hminimum, hmaximum⟩ := Sample.parted_bounded
  obtain ⟨-, hleast⟩ := bounds_nearest Sample.sizing .minimum (-5)
  obtain ⟨hrange, hgreatest⟩ := bounds_nearest Sample.sizing .maximum 9223372036854775808
  obtain ⟨v, hv, -, hnearest, -, hsmall, hother⟩ := hleast f hminimum
  obtain ⟨v', hv', -, -, hexact, -⟩ := hgreatest f hmaximum
  have hfive : Binary64.IsWhole (-5) := ⟨5, 0, rfl, by decide, by decide⟩
  have hpower : Binary64.IsWhole 9223372036854775808 := ⟨1, 63, rfl, by decide, by decide⟩
  obtain ⟨horder, hdifferent⟩ := hother _ _ _ _ _ hmaximum hv'
  exact ⟨hrange (by decide +kernel), f, v, v', hminimum, hmaximum, hv, hv', hnearest,
    hsmall (by decide), hexact.2 hpower, horder (by decide), hdifferent hfive hpower (by decide)⟩

end Extractor

end ApiModels
