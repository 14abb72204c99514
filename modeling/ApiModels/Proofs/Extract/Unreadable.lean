/-
ApiModels.Proofs.Extract.Unreadable — how reading fails, whatever is read.

A document may hold anything anywhere. Where a value cannot be read as what
it stands for, it has the wrong shape, it is no pair in a list of pairs, it
holds a whole number of too many digits, or it is a bound beyond the doubles.
These are all the failures of what is read of a value (`Failure.Unreadable`),
save that an operation asks for parts that a document may lack.

`Result.Reads x` says that `x` fails in no other way. Nothing is asked of the
document: where it is of the expected shape, `Proofs.Extract.Regular` says
more. Of the missing parts it is said here which one it is and when it is
missing (`responseSchema_missing`, `schema_missing`).
-/
import ApiModels.Proofs.Document.Regular

namespace ApiModels

/-- A value cannot be read as what it stands for. -/
inductive Failure.Unreadable : Failure → Prop where
  | wrongShape : Unreadable .wrongShape
  | notAPair {position length} : Unreadable (.notAPair position length)
  | tooManyDigits {count} : Unreadable (.tooManyDigits count)
  | beyondDoubles : Unreadable .beyondDoubles

namespace Result

variable {α β : Type} {x : Result α} {f : α → Result β}

/-- A result fails only where a value cannot be read. -/
def Reads (x : Result α) : Prop := FailsOnly Failure.Unreadable x

theorem Reads.ok (a : α) : Reads (.ok a : Result α) := failsOnly_ok a

theorem Reads.fail {e : Failure} (h : e.Unreadable) : Reads (.error e : Result α) :=
  failsOnly_error h

theorem Reads.wrongShape : Reads (.error .wrongShape : Result α) := .fail .wrongShape

theorem Reads.bind (hx : Reads x) (hf : ∀ a, Reads (f a)) : Reads (x >>= f) :=
  FailsOnly.bind hx fun a _ => hf a

/-- A failure that shows values is unreadable where it cannot be shown. -/
theorem failsOnly_showing {P : Failure → Prop} {shown : List Value} {e : Failure} (h : P e) :
    FailsOnly (fun e => P e ∨ e.Unreadable) (Failure.showing shown e : Result α) := by
  refine failsOnly_error ?_
  split
  · exact .inl h
  · exact .inr .tooManyDigits

end Result

open ApiModels.Result (Reads FailsOnly failsOnly_ok failsOnly_error failsOnly_showing)

/-! ## Values -/

namespace Scalar

theorem reads_items (s : Scalar) : Reads s.items := by
  cases s with
  | text | bytes | pair => exact .ok _
  | null | bool | int | float | date => exact .wrongShape

theorem reads_lower (s : Scalar) : Reads s.lower := by
  cases s with
  | text | bytes => exact .ok _
  | null | bool | int | float | date | pair => exact .wrongShape

end Scalar

namespace Value

theorem reads_members (v : Value) : Reads v.members := by
  unfold members
  split
  · exact .ok _
  · exact .wrongShape

theorem reads_membersOrNone (v : Value) : Reads v.membersOrNone := by
  unfold membersOrNone
  split
  · exact reads_members v
  · exact .ok _

theorem reads_items (v : Value) : Reads v.items := by
  unfold items
  split
  · exact .ok _
  · exact .ok _
  · exact .ok _
  · exact .ok _
  · exact Scalar.reads_items _
  · exact .wrongShape

theorem reads_itemsOrNone (v : Value) : Reads v.itemsOrNone := by
  unfold itemsOrNone
  split
  · exact reads_items v
  · exact .ok _

theorem reads_key : ∀ v : Value, Reads v.key
  | .scalar _ => .ok _
  | .pair a b => (reads_key a).bind fun _ => (reads_key b).bind fun _ => .ok _
  | .list _ | .object _ | .set _ | .knot _ _ => .wrongShape

theorem reads_asText (v : Value) : Reads v.asText := by
  unfold asText
  split
  · exact .ok _
  · exact .wrongShape

theorem reads_keys (vs : List Value) : Reads (keys vs) := by
  induction vs with
  | nil => exact .ok _
  | cons v vs ih => exact (reads_key v).bind fun _ => ih.bind fun _ => .ok _

theorem reads_names (v : Value) : Reads v.names :=
  (reads_itemsOrNone v).bind reads_keys

theorem reads_told (v : Value) : Reads v.told := by
  unfold told
  split
  · exact .ok _
  · exact .fail .tooManyDigits

theorem reads_toldEach (vs : List Value) : Reads (toldEach vs) := by
  induction vs with
  | nil => exact .ok _
  | cons v vs ih => exact (reads_told v).bind fun _ => ih.bind fun _ => .ok _

theorem reads_first (v : Value) : Reads v.first := by
  unfold first
  split
  · split
    · exact .ok _
    · exact .wrongShape
  · exact .wrongShape
  · refine (reads_items _).bind fun items => ?_
    split
    · exact .ok _
    · exact .wrongShape

theorem reads_pairsFrom (vs : List Value) : ∀ n, Reads (pairsFrom n vs) := by
  induction vs with
  | nil => exact fun _ => .ok _
  | cons v vs ih =>
    refine fun n => (reads_items v).bind fun parts => ?_
    split
    · exact (reads_key _).bind fun _ => (ih _).bind fun _ => .ok _
    · exact .fail .notAPair

theorem reads_association (v : Value) : Reads v.association := by
  unfold association
  split
  · split
    · exact .ok _
    · exact (reads_items v).bind fun items => (reads_pairsFrom items 0).bind fun _ => .ok _
  · exact .ok _

theorem reads_contains (v part : Value) : Reads (v.contains part) := by
  unfold contains
  split
  · exact (reads_key part).bind fun _ => .ok _
  · exact .ok _
  · exact .ok _
  · exact (reads_key part).bind fun _ => .ok _
  · exact (reads_asText part).bind fun _ => .ok _
  · exact .wrongShape

end Value

theorem reads_sortOnKey {α : Type} (keyOf : α → Scalar) (l : List α) :
    Reads (sortOnKey keyOf l) := by
  unfold sortOnKey
  split
  · exact .ok _
  · exact .wrongShape

theorem reads_extended (path name : Scalar) : Reads (extended path name) := by
  unfold extended
  split
  · exact .ok _
  · exact .fail .tooManyDigits

/-! ## References and operations -/

theorem Members.reads_follow (root : Members) (hops : Nat) :
    ∀ (name : String) (node : Members), Reads (root.follow hops name node) := by
  have htold : ∀ (reference : Value) (name : String) (tells : Bool),
      Reads (reference.key >>= fun _ =>
        if tells then reference.told >>= fun _ => .ok (⟨none, name⟩ : Resolution)
        else .error .wrongShape) := by
    intro reference name tells
    refine (Value.reads_key reference).bind fun _ => ?_
    split
    · exact (Value.reads_told reference).bind fun _ => .ok _
    · exact .wrongShape
  induction hops with
  | zero =>
    intro name node
    unfold follow
    split
    · exact .ok _
    · exact .ok _
    · exact htold _ _ _
  | succ hops ih =>
    intro name node
    unfold follow
    split
    · exact .ok _
    · dsimp only
      split
      · exact .ok _
      · exact ih _ _
    · exact htold _ _ _

namespace Document

variable {d : Document} {id node : Value}

theorem reads_resolve (d : Document) (node : Value) : Reads (d.resolve node) := by
  rw [resolve, Members.resolve_eq]
  split
  · exact Members.reads_follow _ _ _ _
  · exact .ok _

theorem reads_find? (d : Document) (id : Value) : Reads (d.find? id) :=
  (Value.reads_key id).bind fun _ => .ok _

theorem reads_has (d : Document) (id : Value) : Reads (d.has id) :=
  (reads_find? d id).bind fun _ => .ok _

theorem reads_bodySchema (body : Members) : Reads (bodySchema body) :=
  (Value.reads_membersOrNone _).bind fun _ => (Value.reads_membersOrNone _).bind fun _ => .ok _

theorem reads_firstResponseSchema (d : Document) (responses : Members)
    (codes : List (String × Int)) : Reads (d.firstResponseSchema responses codes) := by
  induction codes with
  | nil => exact .ok _
  | cons code rest ih =>
    refine (reads_resolve d _).bind fun r => ?_
    split
    · exact ih
    · exact ih
    · refine (reads_bodySchema _).bind fun schema => ?_
      split
      · exact ih
      · exact .ok _

theorem reads_resolveParameters (d : Document) (raws : List Value) :
    Reads (d.resolveParameters raws) := by
  induction raws with
  | nil => exact .ok _
  | cons raw rest ih =>
    refine (reads_resolve d raw).bind fun r => ih.bind fun _ => ?_
    split <;> exact .ok _

/-- Besides what cannot be read, an operation fails only where there is none. -/
theorem operation_missing (d : Document) (id : Value) :
    FailsOnly (fun e => (e = .missing (.operation id) ∧ d.has id = .ok false) ∨ e.Unreadable)
      (d.operation id) := by
  refine ((reads_find? d id).mono fun _ => .inr).bind fun found hfound => ?_
  split
  · exact failsOnly_ok _
  · exact failsOnly_showing ⟨rfl, by rw [has, hfound]; rfl⟩

/-- An operation that is there can be read. -/
theorem reads_operation (h : d.has id = .ok true) : Reads (d.operation id) := by
  intro e he
  rcases operation_missing d id e he with ⟨-, hno⟩ | he
  · cases h.symm.trans hno
  · exact he

theorem reads_parameters (h : d.has id = .ok true) : Reads (d.parameters id) :=
  (reads_operation h).bind fun _ => (Value.reads_itemsOrNone _).bind fun _ =>
    reads_resolveParameters d _

theorem requestSchema_missing (d : Document) (id : Value) :
    FailsOnly (fun e => (∃ part, e = .missing part) ∨ e.Unreadable) (d.requestSchema id) := by
  have hmissing : ∀ part : MissingPart,
      FailsOnly (fun e => (∃ part, e = .missing part) ∨ e.Unreadable)
        (part.fail : Result Value) := fun part => failsOnly_showing ⟨part, rfl⟩
  refine ((operation_missing d id).mono fun e he => he.imp_left fun h => ⟨_, h.1⟩).bind
    fun o _ => ((reads_resolve d _).mono fun _ => .inr).bind fun r _ => ?_
  split
  · exact hmissing _
  · exact hmissing _
  · refine ((reads_bodySchema _).mono fun _ => .inr).bind fun schema _ => ?_
    split
    · exact hmissing _
    · exact failsOnly_ok _

/-- The schema of a response is missing where the operation is, or where no response has one. -/
theorem responseSchema_missing (d : Document) (id : Value) :
    FailsOnly (fun e => (e = .missing (.operation id) ∧ d.has id = .ok false) ∨
        (e = .missing (.successResponse id) ∧ ¬ d.Returns id) ∨ e.Unreadable)
      (d.responseSchema id) := by
  refine ((operation_missing d id).mono fun e he => he.imp_right .inr).bind fun o ho => ?_
  refine ((Value.reads_membersOrNone _).mono fun _ he => .inr (.inr he)).bind
    fun responses hresponses => ?_
  refine ((reads_firstResponseSchema d _ _).mono fun _ he => .inr (.inr he)).bind
    fun found hfound => ?_
  split
  · exact failsOnly_ok _
  · refine (failsOnly_showing ⟨rfl, ?_⟩).mono fun e he => .inr he
    rintro ⟨o', ho', responses', hresponses', code, hcode, body, n, hbody, schema, hschema, hne⟩
    cases ho.symm.trans ho'
    cases hresponses.symm.trans hresponses'
    exact hne (eq_null_of_firstResponseSchema hfound code hcode body n schema hbody hschema)

/-- A schema is missing only where it is not declared. -/
theorem schema_missing (d : Document) (name : String) :
    FailsOnly (fun e => (e = .missing (.schema (.text name)) ∧ ¬ d.Declares name) ∨ e.Unreadable)
      (d.schema (.text name)) := by
  refine ((Value.reads_membersOrNone _).mono fun _ => .inr).bind fun components hcomponents => ?_
  refine ((Value.reads_contains _ _).mono fun _ => .inr).bind fun declared hdeclared => ?_
  split
  · exact failsOnly_ok _
  · rename_i habsent
    refine failsOnly_showing ⟨rfl, ?_⟩
    rintro ⟨components', hcomponents', schemas, hschemas, hsome⟩
    cases hcomponents.symm.trans hcomponents'
    have hobject : (Members.get components "schemas").Optionally Value.IsObject := by
      intro hgiven
      rw [Value.membersOrNone, if_pos hgiven, Value.members] at hschemas
      split at hschemas
      · exact ⟨_, by assumption⟩
      · cases hschemas
    cases (contains_orElse hobject hschemas name).symm.trans hdeclared
    exact habsent hsome

end Document

/-! ## Schemas -/

namespace Schema

theorem reads_firstAlternative (d : Document) (alternatives : Value) :
    Reads (firstAlternative d alternatives) :=
  (Value.reads_first alternatives).bind fun _ => (Document.reads_resolve d _).bind fun _ => .ok _

theorem reads_typeWithin (d : Document) (levels : Nat) :
    ∀ schema, Reads (typeWithin d levels schema) := by
  induction levels with
  | zero => exact fun _ => .ok _
  | succ levels ih =>
    intro schema
    unfold typeWithin
    split
    · exact .ok _
    · split
      · refine (reads_firstAlternative d _).bind fun alternative => ?_
        split
        · exact ih _
        · exact .ok _
      · exact .ok _

theorem reads_textEnum (d : Document) (schema : Members) : Reads (textEnum d schema) := by
  have htexts : ∀ values : Value, Reads (values.itemsOrNone >>= fun vs =>
      .ok (vs.filterMap Value.text?)) := fun values =>
    (Value.reads_itemsOrNone values).bind fun _ => .ok _
  unfold textEnum
  dsimp only
  split
  · split
    · refine (reads_firstAlternative d _).bind fun alternative => ?_
      split <;> exact (Reads.ok _).bind htexts
    · exact (Reads.ok _).bind htexts
  · exact (Reads.ok _).bind htexts

theorem reads_addParts (d : Document) (parts : List Value) :
    ∀ properties required, Reads (addParts d parts properties required) := by
  induction parts with
  | nil => exact fun _ _ => .ok _
  | cons part rest ih =>
    refine fun properties required => (Document.reads_resolve d part).bind fun r => ?_
    split
    · exact ih _ _
    · exact (Value.reads_membersOrNone _).bind fun _ => (Value.reads_names _).bind fun _ => ih _ _

theorem reads_properties (d : Document) (schema : Members) : Reads (properties d schema) :=
  (Value.reads_association _).bind fun _ => (Value.reads_names _).bind fun _ =>
    (Value.reads_itemsOrNone _).bind fun _ => reads_addParts d _ _ _

theorem reads_bound (v : Value) : Reads (bound v) := by
  unfold bound
  split
  · split
    · exact .ok _
    · exact .fail .beyondDoubles
  · exact .ok _
  · exact .ok _

theorem reads_textOrNone (v : Value) : Reads (textOrNone v) := by
  unfold textOrNone
  split
  · exact Value.reads_asText v
  · exact .ok _

end Schema

/-! ## The walk -/

namespace Extractor

variable {nested : Nested}

theorem reads_schemaType (x : Extractor) (schema : Members) : Reads (x.schemaType schema) :=
  Schema.reads_typeWithin _ _ _

theorem reads_fieldInfo (x : Extractor) (path name : Scalar) (required : Bool) (refName : String)
    (type : SemanticType) (schema : Members) :
    Reads (x.fieldInfo path name required refName type schema) :=
  (Schema.reads_textOrNone _).bind fun _ => (Schema.reads_bound _).bind fun _ =>
    (Schema.reads_bound _).bind fun _ => .ok _

theorem reads_arrayField (x : Extractor) (hnested : ∀ path node, Reads (nested path node))
    (path : Scalar) (info : FieldInfo) (schema : Members) :
    Reads (x.arrayField nested path info schema) := by
  refine (Document.reads_resolve _ _).bind fun resolved => ?_
  split
  · exact .ok _
  · refine (reads_schemaType x _).bind fun itemType => ?_
    dsimp only
    split
    · refine (hnested _ _).bind fun fields => ?_
      split <;> exact .ok _
    · exact .ok _

theorem reads_mapValueType (x : Extractor) (name : Scalar) (schema : Members) :
    Reads (x.mapValueType name schema) := by
  unfold mapValueType
  dsimp only
  split
  · refine (Document.reads_resolve _ _).bind fun resolved => ?_
    split
    · exact .ok _
    · refine (reads_schemaType x _).bind fun type => ?_
      split <;> exact .ok _
  · exact .ok _

theorem reads_objectField (x : Extractor) (hnested : ∀ path node, Reads (nested path node))
    (path : Scalar) (info : FieldInfo) (node : Value) (schema : Members) :
    Reads (x.objectField nested path info node schema) := by
  refine (hnested path node).bind fun fields => ?_
  split
  · exact (reads_mapValueType x _ _).bind fun _ => .ok _
  · exact .ok _

theorem reads_field (x : Extractor) (hnested : ∀ path node, Reads (nested path node))
    (path name : Scalar) (required : Bool) (node : Value) :
    Reads (x.field nested path name required node) := by
  refine (Document.reads_resolve _ _).bind fun resolved => ?_
  split
  · exact .ok _
  · refine (reads_schemaType x _).bind fun type => (reads_fieldInfo x _ _ _ _ _ _).bind
      fun info => ?_
    split
    · exact (Schema.reads_textEnum _ _).bind fun _ => .ok _
    · exact .ok _
    · exact .ok _
    · exact .ok _
    · exact reads_arrayField x hnested _ _ _
    · exact (reads_objectField x hnested _ _ _ _).bind fun _ => .ok _
    · exact (Value.reads_told _).bind fun _ => .ok _

theorem reads_fieldsAmong (x : Extractor) (hnested : ∀ path node, Reads (nested path node))
    (path : Scalar) (required : List Scalar) (members : Members) :
    Reads (x.fieldsAmong nested path required members) := by
  induction members with
  | nil => exact .ok _
  | cons m rest ih =>
    obtain ⟨name, node⟩ := m
    refine (reads_extended path name).bind fun inner => ?_
    have hothers : ∀ first : Option Field,
        Reads (x.fieldsAmong nested path required rest >>= fun others =>
          .ok (first.toList ++ others)) := fun _ => ih.bind fun _ => .ok _
    split
    · exact (Value.reads_told _).bind fun _ => hothers none
    · exact (reads_field x hnested _ _ _ _).bind hothers

theorem reads_withoutIdentifier (x : Extractor) (members : Members) :
    Reads (x.withoutIdentifier members) := by
  induction members with
  | nil => exact .ok _
  | cons m rest ih =>
    obtain ⟨name, node⟩ := m
    exact (Scalar.reads_lower name).bind fun _ => ih.bind fun _ => .ok _

theorem reads_fieldsOf (x : Extractor) (hnested : ∀ path node, Reads (nested path node))
    (skip : Bool) (path : Scalar) (node : Value) : Reads (x.fieldsOf nested skip path node) := by
  refine (Document.reads_resolve _ _).bind fun resolved => ?_
  split
  · exact .ok _
  · refine (Schema.reads_properties _ _).bind fun (properties, required) => ?_
    refine (reads_sortOnKey _ _).bind fun sorted => ?_
    split
    · exact (reads_withoutIdentifier x _).bind fun _ => reads_fieldsAmong x hnested _ _ _
    · exact reads_fieldsAmong x hnested _ _ _

/-- The walk fails only where a value cannot be read. -/
theorem reads_walk (x : Extractor) (levels : Nat) :
    ∀ path node, Reads (x.walk levels path node) := by
  induction levels with
  | zero => exact fun _ _ => .ok _
  | succ levels ih => exact fun path node => reads_fieldsOf x ih false path node

theorem reads_extract (x : Extractor) (node : Value) : Reads (x.extract node) := by
  unfold extract walkFrom
  split
  · exact .ok _
  · exact reads_fieldsOf x (reads_walk x _) _ _ _

end Extractor

/-! ## Filters -/

namespace Filter

theorem reads_ofParameter (x : Extractor) (id : Value) (param : Members) :
    Reads (ofParameter x id param) := by
  unfold ofParameter
  split
  · exact .ok _
  · dsimp only
    split
    · exact .ok _
    · refine (Value.reads_key _).bind fun name => ?_
      split
      · exact .ok _
      · refine (Document.reads_resolve _ _).bind fun resolved => ?_
        split
        · exact .ok _
        · refine (Extractor.reads_schemaType x _).bind fun type => ?_
          split
          · exact (Value.reads_toldEach _).bind fun _ => .ok _
          · exact (Value.reads_toldEach _).bind fun _ => .ok _
          · exact (Schema.reads_textOrNone _).bind fun _ =>
              (Value.reads_itemsOrNone _).bind fun _ => (Value.reads_toldEach _).bind fun _ => .ok _

theorem reads_ofParameters (x : Extractor) (id : Value) (params : List Members) :
    Reads (ofParameters x id params) := by
  induction params with
  | nil => exact .ok _
  | cons param rest ih =>
    exact (reads_ofParameter x id param).bind fun _ => ih.bind fun _ => .ok _

theorem reads_describe (label : String) (f : Filter) : Reads (describe label f) := by
  unfold describe
  split
  · exact .ok _
  · split
    · exact .ok _
    · exact .wrongShape

theorem reads_describeAll (label : String) (filters : List Filter) :
    Reads (describeAll label filters) := by
  induction filters with
  | nil => exact .ok _
  | cons f rest ih => exact (reads_describe label f).bind fun _ => ih.bind fun _ => .ok _

/-- The filters of an operation fail only where a value cannot be read. -/
theorem reads_ofOperation (d : Document) (id : Value) (label : String) :
    Reads (ofOperation d id label) := by
  unfold ofOperation
  split
  · exact .ok _
  · refine FailsOnly.bind (Document.reads_has d id) fun has hhas => ?_
    cases has with
    | false => exact failsOnly_ok _
    | true =>
      refine (Document.reads_parameters hhas).bind fun params =>
        (reads_ofParameters _ id params).bind fun filters => (reads_sortOnKey _ filters).bind
          fun sorted => ?_
      split
      · exact .ok _
      · exact reads_describeAll label sorted

end Filter

end ApiModels
