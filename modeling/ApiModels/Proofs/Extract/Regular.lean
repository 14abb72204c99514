/-
ApiModels.Proofs.Extract.Regular — what is extracted from a regular
document.

A walk through a regular document fails at nothing but a bound that is beyond
the doubles (`Extractor.extract_failsOnly`). The argument goes along the walk:
`Document.Holds` are the schemas that it comes to, all of them regular, and a
level of it fails only as the next one does. All names that it gives are
texts.

The filters of an operation fail at nothing but a value that cannot be told
(`Filter.ofOperation_failsOnly`), and they do so wherever there is one
(`Filter.not_untold_of_ofOperation`).
-/
import ApiModels.Extract.Filters
import ApiModels.Proofs.Document.Regular

namespace ApiModels

open ApiModels.Result (FailsOnly failsOnly_ok failsOnly_error failsOnly_of_ok failsOnly_bind_of_ok)
open ApiModels.Value (IsText IsObject IsList IsTexts)

namespace Document

variable {d : Document} {schema : Members}

/-! ## The schemas of a regular document -/

/-- A document holds a schema: one of its places leads there. -/
def Holds (d : Document) (schema : Members) : Prop :=
  ∃ node n, d.Place node ∧ d.resolve node = .ok ⟨some schema, n⟩

/-- The one failure that the schemas of a regular document leave: a bound beyond the doubles. -/
def Overflow (d : Document) (e : Failure) : Prop := e = .beyondDoubles ∧ ¬ d.Bounded

theorem Regular.of_holds (hd : d.Regular) (h : d.Holds schema) : RegularSchema schema := by
  obtain ⟨node, n, hplace, hresolve⟩ := h
  exact hd.places node schema n hplace hresolve

/-- What stands in a place can be resolved, and is a schema of the document if it is an object. -/
theorem Regular.resolve (hd : d.Regular) {node : Value} (hplace : d.Place node) :
    ∃ r, d.resolve node = .ok r ∧ ∀ schema, r.node = some schema → d.Holds schema := by
  obtain ⟨⟨found, n⟩, hr⟩ := (hd.followable node hplace).resolve
  refine ⟨_, hr, ?_⟩
  rintro schema rfl
  exact ⟨node, n, hplace, hr⟩

/-- The names of properties in a regular document are texts. -/
theorem Regular.namesAre (hd : d.Regular) : d.NamesAre fun name => name.isText = true := by
  intro node schema n hnode hresolve name inner hproperty
  have hschema := hd.places node schema n (.schema hnode) hresolve
  cases hproperty with
  | own hown hmem =>
    rw [Value.association_eq hschema.properties] at hown
    exact hschema.names _ hown _ hmem
  | inherited hparts hpart hpartResolve hinherited hmem =>
    have hplace : d.Place _ := .part (.schema hnode) hresolve hparts hpart
    exact (hd.places _ _ _ hplace hpartResolve).names _ hinherited _ hmem

end Document

namespace Schema

variable {d : Document} {schema : Members}

/-! ## Types -/

theorem alternatives?_eq_some {alternatives : Value}
    (h : alternatives? schema = some alternatives) : alternatives.given = true ∧
      ∃ member ∈ compositions, alternatives = schema.get member := by
  obtain ⟨member, hmember, h⟩ := List.exists_of_findSome?_eq_some h
  split at h
  · rename_i hgiven
    cases h
    exact ⟨hgiven, member, hmember, rfl⟩
  · cases h

theorem firstAlternative_ok (hd : d.Regular) (hschema : d.Holds schema) {alternatives : Value}
    (h : alternatives? schema = some alternatives) :
    ∃ found, firstAlternative d alternatives = .ok found ∧
      ∀ alternative, found = some alternative → d.Holds alternative := by
  obtain ⟨hgiven, member, hmember, heq⟩ := alternatives?_eq_some h
  have hlist : alternatives.IsList :=
    heq ▸ (hd.of_holds hschema).compositions member hmember (heq ▸ hgiven)
  obtain ⟨first, hfirst⟩ := Value.first_ok hlist hgiven
  obtain ⟨node, n, hplace, hresolve⟩ := hschema
  obtain ⟨r, hr, hheld⟩ := hd.resolve (.alternative hplace hresolve h hfirst)
  refine ⟨r.node, ?_, hheld⟩
  simp only [firstAlternative, hfirst, hr, bind, Except.bind]

theorem typeWithin_ok (hd : d.Regular) (levels : Nat) :
    ∀ {schema : Members}, d.Holds schema → ∃ t, typeWithin d levels schema = .ok t := by
  induction levels with
  | zero => exact fun _ => ⟨_, rfl⟩
  | succ levels ih =>
    intro schema hschema
    unfold typeWithin
    cases declaredType? schema with
    | some t => exact ⟨t, rfl⟩
    | none =>
      cases halternatives : alternatives? schema with
      | none => exact ⟨_, rfl⟩
      | some alternatives =>
        obtain ⟨found, hfound, hheld⟩ := firstAlternative_ok hd hschema halternatives
        simp only [hfound, bind, Except.bind]
        cases found with
        | none => exact ⟨_, rfl⟩
        | some alternative => exact ih (hheld alternative rfl)

theorem textEnum_ok (hd : d.Regular) (hschema : d.Holds schema) :
    ∃ texts, textEnum d schema = .ok texts := by
  refine Result.ok_of_never ?_
  have hread : ∀ {v : Value}, v.Optionally IsList → FailsOnly (fun _ => False)
      (v.itemsOrNone >>= fun values => .ok (values.filterMap Value.text?)) :=
    fun hlist => failsOnly_bind_of_ok (Value.itemsOrNone_ok hlist) fun _ _ => failsOnly_ok _
  unfold textEnum
  split
  · cases halternatives : alternatives? schema with
    | none => exact hread (Value.optionally_null _)
    | some alternatives =>
      obtain ⟨found, hfound, hheld⟩ := firstAlternative_ok hd hschema halternatives
      simp only [hfound, bind, Except.bind]
      cases found with
      | none => exact hread (Value.optionally_null _)
      | some alternative => exact hread (hd.of_holds (hheld alternative rfl)).enum
  · exact hread (hd.of_holds hschema).enum

/-! ## Properties -/

theorem addParts_ok (hd : d.Regular) {parts : List Value} (h : ∀ part ∈ parts, d.Place part) :
    ∀ properties required, ∃ r, addParts d parts properties required = .ok r := by
  suffices hfails : ∀ properties required,
      FailsOnly (fun _ => False) (addParts d parts properties required) from
    fun properties required => Result.ok_of_never (hfails properties required)
  induction parts with
  | nil => exact fun _ _ => failsOnly_ok _
  | cons part rest ih =>
    obtain ⟨hpart, hrest⟩ := List.forall_mem_cons.1 h
    intro properties required
    obtain ⟨r, hr, hheld⟩ := hd.resolve hpart
    refine failsOnly_bind_of_ok ⟨r, hr⟩ fun r' hr' => ?_
    cases hr.symm.trans hr'
    split
    · exact ih hrest _ _
    · rename_i schema hnode
      have hschema := hd.of_holds (hheld schema hnode)
      exact failsOnly_bind_of_ok (Value.membersOrNone_ok hschema.properties) fun _ _ =>
        failsOnly_bind_of_ok (Value.names_ok hschema.required) fun _ _ => ih hrest _ _

theorem properties_ok (hd : d.Regular) (hschema : d.Holds schema) :
    ∃ r, properties d schema = .ok r := by
  refine Result.ok_of_never ?_
  have hregular := hd.of_holds hschema
  have hown := Value.membersOrNone_ok hregular.properties
  rw [← Value.association_eq hregular.properties] at hown
  have hparts := Value.itemsOrNone_ok (hregular.compositions "allOf" (by decide))
  refine failsOnly_bind_of_ok hown fun own _ =>
    failsOnly_bind_of_ok (Value.names_ok hregular.required) fun required _ =>
      failsOnly_bind_of_ok hparts fun parts hparts => failsOnly_of_ok ?_
  obtain ⟨node, n, hplace, hresolve⟩ := hschema
  exact addParts_ok hd (fun part hpart => .part hplace hresolve hparts hpart) _ _

theorem bound_failsOnly (v : Value) :
    FailsOnly (fun e => e = .beyondDoubles ∧ ¬ Document.WithinDoubles v) (bound v) := by
  unfold bound
  split
  · rename_i n
    split
    · exact failsOnly_ok _
    · rename_i hbeyond
      refine failsOnly_error ⟨rfl, fun hwithin => ?_⟩
      have hsome := hwithin n rfl
      rw [hbeyond] at hsome
      cases hsome
  · exact failsOnly_ok _
  · exact failsOnly_ok _

end Schema

namespace Extractor

variable {x : Extractor} {nested : Nested} {path name : Scalar} {node : Value} {schema : Members}

/-! ## The walk -/

theorem schemaType_ok (hd : x.document.Regular) (hschema : x.document.Holds schema) :
    ∃ t, x.schemaType schema = .ok t :=
  Schema.typeWithin_ok hd _ hschema

theorem bound_overflow (hschema : x.document.Holds schema) {member : String}
    (hmember : member ∈ ["minimum", "maximum"]) :
    FailsOnly x.document.Overflow (Schema.bound (schema.get member)) := by
  refine (Schema.bound_failsOnly _).mono ?_
  rintro e ⟨he, hbeyond⟩
  obtain ⟨node, n, hplace, hresolve⟩ := hschema
  exact ⟨he, fun hbounded => hbeyond (hbounded node schema n hplace hresolve member hmember)⟩

theorem fieldInfo_failsOnly (hd : x.document.Regular) (hschema : x.document.Holds schema)
    (required : Bool) (refName : String) (type : SemanticType) :
    FailsOnly x.document.Overflow (x.fieldInfo path name required refName type schema) :=
  failsOnly_bind_of_ok (Value.textOrNone_ok (hd.of_holds hschema).description) fun _ _ =>
    (bound_overflow hschema (by decide)).bind fun _ _ =>
      (bound_overflow hschema (by decide)).bind fun _ _ => failsOnly_ok _

/-- A walk of nested nodes fails only at a bound, where it starts at a path that is a text. -/
def Passes (x : Extractor) (nested : Nested) : Prop :=
  ∀ path node, path.isText = true → x.document.Schema node →
    FailsOnly x.document.Overflow (nested path node)

theorem arrayField_failsOnly (hd : x.document.Regular) (hnested : x.Passes nested)
    (hpath : path.isText = true) {n : String} (hnode : x.document.Schema node)
    (hresolve : x.document.resolve node = .ok ⟨some schema, n⟩) (info : FieldInfo) :
    FailsOnly x.document.Overflow (x.arrayField nested path info schema) := by
  have hitems : x.document.Schema (schema.get "items") := .items hnode hresolve
  obtain ⟨r, hr, hheld⟩ := hd.resolve (.schema hitems)
  refine failsOnly_bind_of_ok ⟨r, hr⟩ fun r' hr' => ?_
  cases hr.symm.trans hr'
  split
  · exact failsOnly_ok _
  · rename_i itemSchema hitem
    refine failsOnly_bind_of_ok (schemaType_ok hd (hheld itemSchema hitem)) fun itemType _ => ?_
    by_cases htype : itemType = .object
    · simp only [if_pos htype]
      refine (hnested path _ hpath hitems).bind fun fields _ => ?_
      split <;> exact failsOnly_ok _
    · simp only [if_neg htype]
      exact failsOnly_ok _

theorem mapValueType_ok (hd : x.document.Regular) (hschema : x.document.Holds schema) :
    ∃ t, x.mapValueType name schema = .ok t := by
  refine Result.ok_of_never ?_
  obtain ⟨node, n, hplace, hresolve⟩ := hschema
  obtain ⟨r, hr, hheld⟩ := hd.resolve (.values hplace hresolve)
  simp only [mapValueType]
  split
  · refine failsOnly_bind_of_ok ⟨r, hr⟩ fun r' hr' => ?_
    cases hr.symm.trans hr'
    split
    · exact failsOnly_ok _
    · rename_i valueSchema hvalue
      refine failsOnly_bind_of_ok (schemaType_ok hd (hheld valueSchema hvalue)) fun t _ => ?_
      split <;> exact failsOnly_ok _
  · exact failsOnly_ok _

theorem objectField_failsOnly (hd : x.document.Regular) (hnested : x.Passes nested)
    (hpath : path.isText = true) (hnode : x.document.Schema node)
    (hschema : x.document.Holds schema) (info : FieldInfo) :
    FailsOnly x.document.Overflow (x.objectField nested path info node schema) := by
  refine (hnested path node hpath hnode).bind fun fields _ => ?_
  split
  · exact failsOnly_bind_of_ok (mapValueType_ok hd hschema) fun _ _ => failsOnly_ok _
  · exact failsOnly_ok _

theorem field_failsOnly (hd : x.document.Regular) (hnested : x.Passes nested)
    (hpath : path.isText = true) (hnode : x.document.Schema node) (required : Bool) :
    FailsOnly x.document.Overflow (x.field nested path name required node) := by
  obtain ⟨⟨found, n⟩, hresolve, hheld⟩ := hd.resolve (.schema hnode)
  refine failsOnly_bind_of_ok ⟨_, hresolve⟩ fun r hr => ?_
  cases hresolve.symm.trans hr
  cases found with
  | none => exact failsOnly_ok _
  | some schema =>
    have hschema := hheld schema rfl
    refine failsOnly_bind_of_ok (schemaType_ok hd hschema) fun type _ => ?_
    refine (fieldInfo_failsOnly hd hschema required n type).bind fun info _ => ?_
    split
    · exact failsOnly_bind_of_ok (Schema.textEnum_ok hd hschema) fun _ _ => failsOnly_ok _
    · exact failsOnly_ok _
    · exact failsOnly_ok _
    · exact failsOnly_ok _
    · exact arrayField_failsOnly hd hnested hpath hnode hresolve info
    · exact (objectField_failsOnly hd hnested hpath hnode hschema info).bind
        fun _ _ => failsOnly_ok _
    · exact failsOnly_bind_of_ok (Value.told_ok hpath) fun _ _ => failsOnly_ok _

theorem fieldsAmong_failsOnly (hd : x.document.Regular) (hnested : x.Passes nested)
    (hpath : path.isText = true) (required : List Scalar) {members : Members}
    (h : ∀ m ∈ members, m.1.isText = true ∧ x.document.Schema m.2) :
    FailsOnly x.document.Overflow (x.fieldsAmong nested path required members) := by
  induction members with
  | nil => exact failsOnly_ok _
  | cons m rest ih =>
    obtain ⟨name, node⟩ := m
    obtain ⟨⟨hname, hnode⟩, hrest⟩ := List.forall_mem_cons.1 h
    have htext := dotted_isText path hname
    have hextended : extended path name = .ok (dotted path name) :=
      if_pos (canBeDotted_of_texts hpath hname)
    refine failsOnly_bind_of_ok ⟨_, hextended⟩ fun inner hinner => ?_
    cases hextended.symm.trans hinner
    have hothers : ∀ first : Option Field, FailsOnly x.document.Overflow
        (x.fieldsAmong nested path required rest >>= fun others => .ok (first.toList ++ others)) :=
      fun first => (ih hrest).bind fun others _ => failsOnly_ok _
    split
    · exact failsOnly_bind_of_ok (Value.told_ok htext) fun _ _ => hothers none
    · exact (field_failsOnly hd hnested htext hnode _).bind fun first _ => hothers first

theorem withoutIdentifier_ok {members : Members} (h : ∀ m ∈ members, m.1.isText = true) :
    ∃ kept, x.withoutIdentifier members = .ok kept := by
  induction members with
  | nil => exact ⟨[], rfl⟩
  | cons m rest ih =>
    obtain ⟨name, node⟩ := m
    obtain ⟨hname, hrest⟩ := List.forall_mem_cons.1 h
    obtain ⟨s, rfl⟩ := Scalar.isText_iff.1 hname
    obtain ⟨kept, hkept⟩ := ih hrest
    simp only [withoutIdentifier, Scalar.lower, hkept, bind, Except.bind]
    exact ⟨_, rfl⟩

theorem fieldsOf_failsOnly (hd : x.document.Regular) (hnested : x.Passes nested)
    (hpath : path.isText = true) (hnode : x.document.Schema node) (skip : Bool) :
    FailsOnly x.document.Overflow (x.fieldsOf nested skip path node) := by
  obtain ⟨⟨found, n⟩, hresolve, hheld⟩ := hd.resolve (.schema hnode)
  refine failsOnly_bind_of_ok ⟨_, hresolve⟩ fun r hr => ?_
  cases hresolve.symm.trans hr
  cases found with
  | none => exact failsOnly_ok _
  | some schema =>
    refine failsOnly_bind_of_ok (Schema.properties_ok hd (hheld schema rfl))
      fun (properties, required) hproperties => ?_
    obtain ⟨-, hproperty⟩ := Schema.properties_spec hproperties
    have hmembers : ∀ m ∈ properties, m.1.isText = true ∧ x.document.Schema m.2 := by
      intro m hm
      have hmem := hproperty m.1 m.2 hm
      exact ⟨hd.namesAre node schema n hnode hresolve m.1 m.2 hmem, .property hnode hresolve hmem⟩
    refine failsOnly_bind_of_ok (sortOnKey_ok fun m hm => (hmembers m hm).1)
      fun sorted hsorted => ?_
    have hmembers' : ∀ m ∈ sorted, m.1.isText = true ∧ x.document.Schema m.2 :=
      fun m hm => hmembers m ((sortOnKey_perm hsorted).mem_iff.1 hm)
    split
    · refine failsOnly_bind_of_ok (withoutIdentifier_ok fun m hm => (hmembers' m hm).1)
        fun kept hkept => ?_
      exact fieldsAmong_failsOnly hd hnested hpath required fun m hm =>
        hmembers' m ((withoutIdentifier_sublist hkept).subset hm)
    · exact fieldsAmong_failsOnly hd hnested hpath required hmembers'

theorem walk_passes (hd : x.document.Regular) (levels : Nat) : x.Passes (x.walk levels) := by
  induction levels with
  | zero => exact fun _ _ _ _ => failsOnly_ok _
  | succ levels ih => exact fun path node hpath hnode => fieldsOf_failsOnly hd ih hpath hnode false

/-- What is extracted from a regular document fails only at a bound beyond the doubles. -/
theorem extract_failsOnly (hd : x.document.Regular) (hnode : x.document.Schema node) :
    FailsOnly x.document.Overflow (x.extract node) := by
  unfold extract walkFrom
  split
  · exact failsOnly_ok _
  · exact fieldsOf_failsOnly hd (walk_passes hd _) rfl hnode _

end Extractor

/-! ## Filters -/

namespace Filter

variable {d : Document} {id : String} {param schema : Members}

/-- A parameter filters, and its schema is neither that of a list nor that of an object. -/
structure Filters (d : Document) (param schema : Members) : Prop where
  query : (param.get "in").text? = some "query"
  named : ∃ name, param.getOr "name" (.text "") = .text name ∧ name ≠ "" ∧ name ∉ ignored
  resolved : ∃ n, d.resolve (param.get "schema") = .ok ⟨some schema, n⟩
  scalar : ∃ t, Extractor.schemaType { document := d } schema = .ok t ∧ t ≠ .array ∧ t ≠ .object

/-- A parameter filters by a value that cannot be told: it has too many digits. -/
def UntoldIn (d : Document) (param : Members) : Prop :=
  ∃ schema, Filters d param schema ∧ ∃ values, (schema.get "enum").itemsOrNone = .ok values ∧
    ∃ v ∈ values, v.canBeTold = false

/-- A parameter of an operation filters by a value that cannot be told. -/
def Untold (d : Document) (id : Value) : Prop :=
  ∃ params, d.parameters id = .ok params ∧ ∃ param ∈ params, UntoldIn d param

theorem getOr_name {param : Members} (h : (param.get "name").Optionally IsText)
    (hgiven : (param.getOr "name" (.text "")).given = true) :
    (param.getOr "name" (.text "")).IsText := by
  unfold Members.getOr Members.get at *
  cases hname : param.get? "name" with
  | none => exact ⟨"", rfl⟩
  | some v =>
    rw [hname] at h hgiven
    exact h hgiven

theorem ignored_iff (name : String) :
    (ignored.any fun s => (Scalar.text name).same (.text s)) = true ↔ name ∈ ignored := by
  rw [List.any_eq_true]
  simp only [Scalar.same_text, beq_iff_eq, exists_eq_right']

/-- A parameter stands in the query and has a name that filters. -/
structure Named (param : Members) (name : String) : Prop where
  query : (param.get "in").text? = some "query"
  named : param.getOr "name" (.text "") = .text name
  nonempty : name ≠ ""
  read : name ∉ ignored

theorem Filters.found (h : Filters d param schema) {found : Resolution}
    (hresolve : d.resolve (param.get "schema") = .ok found) : found.node = some schema := by
  obtain ⟨n, hn⟩ := h.resolved
  cases hresolve.symm.trans hn
  rfl

theorem Filters.exists_named (h : Filters d param schema) : ∃ name, Named param name := by
  obtain ⟨name, heq, hne, hread⟩ := h.named
  exact ⟨name, h.query, heq, hne, hread⟩

section

variable {x : Extractor} {name : String}

theorem ofParameter_of_not_named (htext : (param.get "name").Optionally IsText)
    (h : ∀ name, ¬ Named param name) (id : Value) : ofParameter x id param = .ok none := by
  unfold ofParameter
  by_cases hquery : (param.get "in").text? = some "query"
  · rw [if_neg (by simp [hquery])]
    by_cases hgiven : (param.getOr "name" (.text "")).given = true
    · obtain ⟨name, heq⟩ := getOr_name htext hgiven
      have hne : name ≠ "" := by
        rw [heq] at hgiven
        simpa [Value.given, Scalar.given] using hgiven
      have hignored : name ∈ ignored := by
        by_contra hread
        exact h name ⟨hquery, heq, hne, hread⟩
      rw [if_neg (by simp [hgiven]), heq]
      exact if_pos ((ignored_iff name).2 hignored)
    · exact if_pos (by simpa using hgiven)
  · exact if_pos (by simpa using hquery)

/-- What is made of a named parameter, by the schema that is found for it. -/
def ofFound (x : Extractor) (id : Value) (param : Members) (name : Scalar) :
    Option Members → Result (Option Filter)
  | none => .ok none
  | some schema => do
    match ← x.schemaType schema with
    | .array | .object => do
      let _ ← Value.toldEach [.scalar name, id]
      .ok none
    | t =>
      let description ← Schema.textOrNone (param.get "description")
      let values ← Value.toldEach (← (schema.get "enum").itemsOrNone)
      .ok (some
        { name := name
          type := (AttrKind.ofType t).validator
          description := Description.escape description
          enum := values })

theorem ofParameter_of_named (h : Named param name) {found : Resolution}
    (hresolve : x.document.resolve (param.get "schema") = .ok found) (id : Value) :
    ofParameter x id param = ofFound x id param (.text name) found.node := by
  have hgiven : (Value.text name).given = true := by
    simpa [Value.given, Scalar.given] using h.nonempty
  unfold ofParameter
  rw [if_neg (by simp [h.query]), h.named, if_neg (by simp [hgiven])]
  simp only [Value.key, bind, Except.bind]
  rw [if_neg fun hignored => h.read ((ignored_iff name).1 hignored), hresolve]
  cases found with
  | mk node reference => cases node <;> rfl

/-- A list and an object are no filter; the texts that are told of them can always be told. -/
theorem ofFound_compound {t : SemanticType} (ht : x.schemaType schema = .ok t)
    (hcompound : t = .array ∨ t = .object) (id : String) :
    ofFound x (.text id) param (.text name) (some schema) = .ok none := by
  simp only [ofFound, ht]
  rcases hcompound with rfl | rfl <;> rfl

theorem ofFound_scalar {t : SemanticType} (ht : x.schemaType schema = .ok t)
    (hscalar : t ≠ .array ∧ t ≠ .object) {description : String} {values : List Value}
    (hdescription : Schema.textOrNone (param.get "description") = .ok description)
    (hvalues : (schema.get "enum").itemsOrNone = .ok values) (id : Value) :
    ofFound x id param (.text name) (some schema) =
      (Value.toldEach values).map fun enum => some
        { name := .text name, type := (AttrKind.ofType t).validator
          description := Description.escape description, enum } := by
  simp only [ofFound, ht, hdescription, hvalues, bind, Except.bind]
  cases t with
  | array => exact absurd rfl hscalar.1
  | object => exact absurd rfl hscalar.2
  | _ => cases Value.toldEach values <;> rfl

end

/-- A parameter is no filter, or it is one as soon as the values that it enumerates are told. -/
theorem ofParameter_cases (hd : d.Regular) (hparam : d.Parameter param) (id : String) :
    (ofParameter { document := d } (.text id) param = .ok none ∧
      ∀ schema, ¬ Filters d param schema) ∨
    ∃ schema, Filters d param schema ∧ ∃ values, (schema.get "enum").itemsOrNone = .ok values ∧
      ∃ make : List String → Filter, (∀ enum, (make enum).name.isText = true) ∧
        ofParameter { document := d } (.text id) param =
          (Value.toldEach values).map fun enum => some (make enum) := by
  obtain ⟨htext, hdescription⟩ := hd.parameters param hparam
  by_cases hnamed : ∃ name, Named param name
  · obtain ⟨name, hnamed⟩ := hnamed
    obtain ⟨⟨found, n⟩, hresolve, hheld⟩ := hd.resolve (.parameter hparam)
    rw [ofParameter_of_named hnamed hresolve]
    cases found with
    | none =>
      exact .inl ⟨rfl, fun _ h => nomatch h.found hresolve⟩
    | some schema =>
      have hschema := hheld schema rfl
      obtain ⟨t, ht⟩ := Extractor.schemaType_ok (x := { document := d }) hd hschema
      by_cases hcompound : t = .array ∨ t = .object
      · refine .inl ⟨ofFound_compound ht hcompound id, fun schema' h => ?_⟩
        cases h.found hresolve
        obtain ⟨t', ht', harray, hobject⟩ := h.scalar
        cases ht.symm.trans ht'
        exact hcompound.elim harray hobject
      · rw [not_or] at hcompound
        obtain ⟨values, hvalues⟩ := Value.itemsOrNone_ok (hd.of_holds hschema).enum
        obtain ⟨description, hdescription⟩ := Value.textOrNone_ok hdescription
        have hfilters : Filters d param schema :=
          ⟨hnamed.query, ⟨name, hnamed.named, hnamed.nonempty, hnamed.read⟩, ⟨n, hresolve⟩, t, ht,
            hcompound⟩
        exact .inr ⟨schema, hfilters, values, hvalues, _, fun _ => rfl,
          ofFound_scalar ht hcompound hdescription hvalues (.text id)⟩
  · rw [not_exists] at hnamed
    refine .inl ⟨ofParameter_of_not_named htext hnamed _, fun _ h => ?_⟩
    obtain ⟨name, hname⟩ := h.exists_named
    exact hnamed name hname

theorem ofParameter_failsOnly (hd : d.Regular) (hparam : d.Parameter param) (id : String) :
    FailsOnly (fun e => e = .tooManyDigits none ∧ UntoldIn d param)
      (ofParameter { document := d } (.text id) param) := by
  obtain ⟨hnone, -⟩ | ⟨schema, hfilters, values, hvalues, make, -, heq⟩ :=
    ofParameter_cases hd hparam id
  · rw [hnone]
    exact failsOnly_ok _
  · intro e he
    cases htold : Value.toldEach values with
    | ok enum =>
      rw [heq, htold] at he
      cases he
    | error e' =>
      rw [heq, htold] at he
      cases he
      obtain ⟨he, hlong⟩ := Value.toldEach_failsOnly values e htold
      exact ⟨he, schema, hfilters, values, hvalues, hlong⟩

/-- A parameter that was read filters by nothing but what can be told. -/
theorem not_untoldIn_of_ofParameter (hd : d.Regular) (hparam : d.Parameter param)
    {f : Option Filter}
    (h : ofParameter { document := d } (.text id) param = .ok f) :
    ¬ UntoldIn d param ∧ ∀ g, f = some g → g.name.isText = true := by
  obtain ⟨hnone, hno⟩ | ⟨schema, hfilters, values, hvalues, make, htext, heq⟩ :=
    ofParameter_cases hd hparam id
  · rw [hnone] at h
    cases h
    refine ⟨?_, nofun⟩
    rintro ⟨schema, hfilters, -⟩
    exact hno schema hfilters
  · rw [heq] at h
    cases htold : Value.toldEach values with
    | error e =>
      rw [htold] at h
      cases h
    | ok enum =>
      rw [htold] at h
      cases h
      refine ⟨?_, fun g hg => Option.some.inj hg ▸ htext enum⟩
      rintro ⟨schema', hfilters', values', hvalues', v, hv, hlong⟩
      obtain ⟨n, hn⟩ := hfilters.resolved
      cases hfilters'.found hn
      cases hvalues.symm.trans hvalues'
      rw [Value.canBeTold_of_toldEach htold v hv] at hlong
      cases hlong

theorem ofParameters_failsOnly (hd : d.Regular) (id : String) {params : List Members}
    (h : ∀ param ∈ params, d.Parameter param) :
    FailsOnly (fun e => e = .tooManyDigits none ∧ ∃ param ∈ params, UntoldIn d param)
      (ofParameters { document := d } (.text id) params) := by
  induction params with
  | nil => exact failsOnly_ok _
  | cons param rest ih =>
    obtain ⟨hparam, hrest⟩ := List.forall_mem_cons.1 h
    refine .bind ((ofParameter_failsOnly hd hparam id).mono ?_) fun first _ =>
      .bind ((ih hrest).mono ?_) fun others _ => failsOnly_ok _
    · exact fun e he => ⟨he.1, param, List.mem_cons_self, he.2⟩
    · rintro e ⟨he, p, hp, huntold⟩
      exact ⟨he, p, List.mem_cons_of_mem _ hp, huntold⟩

theorem not_untoldIn_of_ofParameters (hd : d.Regular) {params : List Members} :
    ∀ {filters : List Filter}, (∀ param ∈ params, d.Parameter param) →
      ofParameters { document := d } (.text id) params = .ok filters →
      (∀ param ∈ params, ¬ UntoldIn d param) ∧ ∀ f ∈ filters, f.name.isText = true := by
  induction params with
  | nil =>
    intro filters _ h
    cases h
    exact ⟨nofun, nofun⟩
  | cons param rest ih =>
    intro filters hparams h
    obtain ⟨hparam, hrest⟩ := List.forall_mem_cons.1 hparams
    simp only [ofParameters, Result.bind_eq_ok] at h
    obtain ⟨first, hfirst, others, hothers, h⟩ := h
    cases h
    obtain ⟨htold, htext⟩ := not_untoldIn_of_ofParameter hd hparam hfirst
    obtain ⟨htolds, htexts⟩ := ih hrest hothers
    refine ⟨List.forall_mem_cons.2 ⟨htold, htolds⟩, List.forall_mem_append.2 ⟨?_, htexts⟩⟩
    exact fun f hf => htext f (Option.mem_toList.1 hf)

theorem describeAll_ok (label : String) {filters : List Filter}
    (h : ∀ f ∈ filters, f.name.isText = true) :
    ∃ described, describeAll label filters = .ok described := by
  refine Result.ok_of_never ?_
  induction filters with
  | nil => exact failsOnly_ok _
  | cons f rest ih =>
    obtain ⟨hf, hrest⟩ := List.forall_mem_cons.1 h
    refine .bind ?_ fun _ _ => (ih hrest).bind fun _ _ => failsOnly_ok _
    unfold describe
    split
    · exact failsOnly_ok _
    · obtain ⟨name, hname⟩ := Scalar.isText_iff.1 hf
      rw [hname]
      exact failsOnly_ok _

/-- The filters of an operation fail only where one of them has a value that cannot be told. -/
theorem ofOperation_failsOnly (hd : d.Regular) (id label : String) :
    FailsOnly (fun e => e = .tooManyDigits none ∧ Untold d (.text id))
      (ofOperation d (.text id) label) := by
  unfold ofOperation
  split
  · exact failsOnly_ok _
  · refine failsOnly_bind_of_ok ⟨_, rfl⟩ fun has hhas => ?_
    cases has with
    | false => exact failsOnly_ok _
    | true =>
      refine failsOnly_bind_of_ok (Document.parameters_ok hd hhas) fun params hparams => ?_
      have hall := Document.parameter_of_mem hparams
      refine ((ofParameters_failsOnly hd id hall).mono ?_).bind fun filters hfilters => ?_
      · exact fun e he => ⟨he.1, params, hparams, he.2⟩
      have htexts := (not_untoldIn_of_ofParameters hd hall hfilters).2
      refine failsOnly_bind_of_ok (sortOnKey_ok htexts) fun sorted hsorted => ?_
      split
      · exact failsOnly_ok _
      · exact failsOnly_of_ok (describeAll_ok label fun f hf =>
          htexts f ((sortOnKey_perm hsorted).mem_iff.1 hf))

/-- Where an operation has filters, the values of all of them can be told. -/
theorem not_untold_of_ofOperation (hd : d.Regular) (hid : id ≠ "") {label : String}
    {filters : List Filter} (h : ofOperation d (.text id) label = .ok filters) :
    ¬ Untold d (.text id) := by
  rintro ⟨params, hparams, param, hparam, huntold⟩
  have hgiven : (Value.text id).given = true := by simpa [Value.given, Scalar.given] using hid
  rw [ofOperation, if_neg (by simp [hgiven]), Result.bind_eq_ok] at h
  obtain ⟨has, hhas, h⟩ := h
  cases (Document.has_of_parameters hparams).symm.trans hhas
  simp only [Bool.not_true, Bool.false_eq_true, if_false, Result.bind_eq_ok] at h
  obtain ⟨params', hparams', filters', hfilters, -⟩ := h
  cases hparams.symm.trans hparams'
  have hall := Document.parameter_of_mem hparams
  exact (not_untoldIn_of_ofParameters hd hall hfilters).1 param hparam huntold

end Filter

end ApiModels
