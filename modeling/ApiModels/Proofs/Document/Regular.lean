/-
ApiModels.Proofs.Document.Regular — documents of the expected shape.

`Document.Regular` says of whatever is read of a document that it has the
type that a description of an API gives it, or is not given at all.
References are texts, properties are an object whose keys are texts, the
names that are required are texts in a list, and so on. Of bounds it says
nothing; `Document.Bounded` says that none of them lies beyond the doubles.

Of a regular document all parts can be read. What can still happen is that a
part is missing: the schema of a request, that of a response
(`responseSchema_failsOnly`), or one that an offering needs
(`schema_failsOnly`). `Document.Returns` and `Document.Declares` say when the
last two are there.
-/
import ApiModels.Proofs.Model.Sides
import ApiModels.Proofs.Value.Reading

namespace ApiModels

open ApiModels.Result (FailsOnly failsOnly_ok failsOnly_error failsOnly_bind_of_ok)
open ApiModels.Value (IsText IsObject IsList IsTexts)

namespace Document

/-! ## Where a document is read -/

/-- One object leads to another by references, or is the same. -/
inductive Leads (d : Document) : Members → Members → Prop where
  | here {ms} : Leads d ms ms
  | on {ms next last pointer} (href : ms.get? Pointer.member = some (.text pointer))
      (htarget : d.root.target? pointer = some next) (h : Leads d next last) : Leads d ms last

/-- The references on the way from a node are texts. -/
def Followable (d : Document) (node : Value) : Prop :=
  ∀ ms last, node.members? = some ms → d.Leads ms last →
    ∀ reference, last.get? Pointer.member = some reference → reference.IsText

/-- A parameter of an operation of a document. -/
def Parameter (d : Document) (param : Members) : Prop :=
  ∃ o ∈ d.operations, ∃ own, (o.spec.get "parameters").itemsOrNone = .ok own ∧
    ∃ raw ∈ o.pathParameters ++ own, ∃ n, d.resolve raw = .ok ⟨some param, n⟩

/-- A schema stands in a node, or one whose type counts for another schema or for a parameter. -/
inductive Place (d : Document) : Value → Prop where
  | schema {node} (h : d.Schema node) : Place d node
  | parameter {param} (h : d.Parameter param) : Place d (param.get "schema")
  | part {node schema n parts part} (hnode : Place d node)
      (hresolve : d.resolve node = .ok ⟨some schema, n⟩)
      (hparts : (Members.get schema "allOf").itemsOrNone = .ok parts) (hpart : part ∈ parts) :
      Place d part
  | alternative {node schema n alternatives first} (hnode : Place d node)
      (hresolve : d.resolve node = .ok ⟨some schema, n⟩)
      (halternatives : Schema.alternatives? schema = some alternatives)
      (hfirst : alternatives.first = .ok first) : Place d first
  | values {node schema n} (hnode : Place d node)
      (hresolve : d.resolve node = .ok ⟨some schema, n⟩) :
      Place d (schema.get "additionalProperties")

/-! ## What is expected of it -/

/-- The members of a schema have the types that they have in a schema. -/
structure RegularSchema (schema : Members) : Prop where
  properties : (schema.get "properties").Optionally IsObject
  names : ∀ properties, (schema.get "properties").membersOrNone = .ok properties →
    ∀ m ∈ properties, m.1.isText = true
  required : (schema.get "required").Optionally IsTexts
  compositions : ∀ member ∈ Schema.compositions, (schema.get member).Optionally IsList
  enum : (schema.get "enum").Optionally IsList
  description : (schema.get "description").Optionally IsText

/-- A body can be followed, and its content is an object of objects. -/
structure RegularBody (d : Document) (node : Value) : Prop where
  followable : d.Followable node
  content : ∀ body n, d.resolve node = .ok ⟨some body, n⟩ →
    (Members.get body "content").Optionally IsObject ∧
    ∀ content, (Members.get body "content").membersOrNone = .ok content →
      (Members.get content jsonContent).Optionally IsObject

/-- An operation has its bodies and its parameters where they are expected. -/
structure RegularOperation (d : Document) (o : Operation) : Prop where
  request : d.RegularBody (o.spec.get "requestBody")
  responses : (o.spec.get "responses").Optionally IsObject
  response : ∀ responses, (o.spec.get "responses").membersOrNone = .ok responses →
    ∀ code ∈ successCodes, d.RegularBody (responseFor responses code)
  parameters : (o.spec.get "parameters").Optionally IsList
  followable : ∀ own, (o.spec.get "parameters").itemsOrNone = .ok own →
    ∀ raw ∈ o.pathParameters ++ own, d.Followable raw

/-- A document of the expected shape. -/
structure Regular (d : Document) : Prop where
  components : (d.root.get "components").Optionally IsObject
  schemas : ∀ components, (d.root.get "components").membersOrNone = .ok components →
    (Members.get components "schemas").Optionally IsObject
  operations : ∀ o ∈ d.operations, d.RegularOperation o
  parameters : ∀ param, d.Parameter param →
    (Members.get param "name").Optionally IsText ∧
    (Members.get param "description").Optionally IsText
  followable : ∀ node, d.Place node → d.Followable node
  places : ∀ node schema n, d.Place node → d.resolve node = .ok ⟨some schema, n⟩ →
    RegularSchema schema

/-- A value is no whole number that is beyond the doubles. -/
def WithinDoubles (v : Value) : Prop := ∀ n, v = .int n → (Binary64.ofInt? n).isSome = true

/-- No bound in the schemas of a document is beyond the doubles. -/
def Bounded (d : Document) : Prop :=
  ∀ node schema n, d.Place node → d.resolve node = .ok ⟨some schema, n⟩ →
    ∀ member ∈ ["minimum", "maximum"], WithinDoubles (Members.get schema member)

/-! ## References -/

variable {d : Document} {node : Value} {id : String}

theorem follow_ok (hops : Nat) : ∀ (name : String) (ms : Members),
    (∀ last, d.Leads ms last → ∀ reference, last.get? Pointer.member = some reference →
      reference.IsText) →
    ∃ r, d.root.follow hops name ms = .ok r := by
  induction hops with
  | zero =>
    intro name ms htexts
    unfold Members.follow
    cases href : ms.get? Pointer.member with
    | none => exact ⟨_, rfl⟩
    | some reference =>
      obtain ⟨pointer, rfl⟩ := htexts ms .here reference href
      exact ⟨_, rfl⟩
  | succ hops ih =>
    intro name ms htexts
    unfold Members.follow
    cases href : ms.get? Pointer.member with
    | none => exact ⟨_, rfl⟩
    | some reference =>
      obtain ⟨pointer, rfl⟩ := htexts ms .here reference href
      cases htarget : d.root.target? pointer with
      | none =>
        simp only [htarget]
        exact ⟨_, rfl⟩
      | some next =>
        simp only [htarget]
        exact ih _ next fun last hlast => htexts last (.on href htarget hlast)

theorem Followable.resolve (h : d.Followable node) : ∃ r, d.resolve node = .ok r := by
  rw [Document.resolve, Members.resolve_eq]
  cases hms : node.members? with
  | none => exact ⟨_, rfl⟩
  | some ms => exact follow_ok _ _ ms fun last hlast => h ms last hms hlast

/-- A node that refers to nothing can be followed. -/
theorem followable_of_plain
    (h : ∀ ms, node.members? = some ms → ms.get? Pointer.member = none) : d.Followable node := by
  intro ms last hms hleads reference href
  cases hleads with
  | here => cases (h ms hms).symm.trans href
  | on hfirst => cases (h ms hms).symm.trans hfirst

/-! ## Operations and their bodies -/

theorem operation_failsOnly (id : String) :
    FailsOnly (fun e => (∃ part, e = .missing part) ∧ d.has (.text id) = .ok false)
      (d.operation (.text id)) := by
  refine failsOnly_bind_of_ok ⟨_, rfl⟩ fun found hfound => ?_
  split
  · exact failsOnly_ok _
  · refine failsOnly_error ⟨⟨.operation (.text id), rfl⟩, ?_⟩
    rw [has, hfound]
    rfl

theorem RegularBody.bodySchema (h : d.RegularBody node) {body : Members} {n : String}
    (hresolve : d.resolve node = .ok ⟨some body, n⟩) : ∃ schema, bodySchema body = .ok schema := by
  obtain ⟨hcontent, hjson⟩ := h.content body n hresolve
  obtain ⟨content, hcontent⟩ := Value.membersOrNone_ok hcontent
  obtain ⟨json, hjson⟩ := Value.membersOrNone_ok (hjson content hcontent)
  refine ⟨json.get "schema", ?_⟩
  simp only [Document.bodySchema, hcontent, hjson, bind, Except.bind]

/-- An operation has a response on success with a schema. -/
def Returns (d : Document) (id : Value) : Prop :=
  ∃ o, d.operation id = .ok o ∧ ∃ responses,
    (o.spec.get "responses").membersOrNone = .ok responses ∧ ∃ code ∈ successCodes, ∃ body n,
      d.resolve (responseFor responses code) = .ok ⟨some body, n⟩ ∧
      ∃ schema, bodySchema body = .ok schema ∧ schema ≠ .null

theorem firstResponseSchema_ok {responses : Members} {codes : List (String × Int)}
    (h : ∀ code ∈ codes, d.RegularBody (responseFor responses code)) :
    ∃ found, d.firstResponseSchema responses codes = .ok found := by
  refine Result.ok_of_never ?_
  induction codes with
  | nil => exact failsOnly_ok _
  | cons code rest ih =>
    obtain ⟨hcode, hrest⟩ := List.forall_mem_cons.1 h
    refine failsOnly_bind_of_ok hcode.followable.resolve fun r hresolve => ?_
    obtain ⟨body?, n⟩ := r
    split
    · exact ih hrest
    · exact ih hrest
    · rename_i body _ hbody
      cases hbody
      refine failsOnly_bind_of_ok (hcode.bodySchema hresolve) fun schema _ => ?_
      split
      · exact ih hrest
      · exact failsOnly_ok _

/-- Where no schema is found, no response has one. -/
theorem eq_null_of_firstResponseSchema {responses : Members} {codes : List (String × Int)}
    (h : d.firstResponseSchema responses codes = .ok none) :
    ∀ code ∈ codes, ∀ body n schema,
      d.resolve (responseFor responses code) = .ok ⟨some body, n⟩ →
      bodySchema body = .ok schema → schema = .null := by
  induction codes with
  | nil => exact nofun
  | cons code rest ih =>
    rw [firstResponseSchema, Result.bind_eq_ok] at h
    obtain ⟨⟨body?, n⟩, hresolve, h⟩ := h
    rw [List.forall_mem_cons, hresolve]
    split at h
    · rename_i hbody
      cases hbody
      refine ⟨?_, ih h⟩
      rintro _ _ schema ⟨⟩
    · rename_i hbody
      cases hbody
      refine ⟨?_, ih h⟩
      rintro _ _ schema ⟨⟩ hschema
      exact (Except.ok.inj hschema).symm
    · rename_i body _ hbody
      rw [Result.bind_eq_ok] at h
      obtain ⟨schema, hschema, h⟩ := h
      cases hbody
      split at h
      · refine ⟨?_, ih h⟩
        rintro _ _ schema' ⟨⟩ hschema'
        exact Except.ok.inj (hschema'.symm.trans hschema)
      · cases h

/-- The schema of a response is missing exactly if no response on success has one. -/
theorem responseSchema_failsOnly (hd : d.Regular) (id : String) :
    FailsOnly (fun e => (∃ part, e = .missing part) ∧ ¬ d.Returns (.text id))
      (d.responseSchema (.text id)) := by
  refine .bind (fun e he => ⟨(operation_failsOnly id e he).1, ?_⟩) fun o ho => ?_
  · rintro ⟨o, ho, -⟩
    rw [ho] at he
    cases he
  have hregular := hd.operations o (mem_of_operation ho)
  refine failsOnly_bind_of_ok (Value.membersOrNone_ok hregular.responses)
    fun responses hresponses => ?_
  refine failsOnly_bind_of_ok (firstResponseSchema_ok (hregular.response responses hresponses))
    fun found hfound => ?_
  split
  · exact failsOnly_ok _
  · refine failsOnly_error ⟨⟨.successResponse (.text id), rfl⟩, ?_⟩
    rintro ⟨o', ho', responses', hresponses', code, hcode, body, n, hbody, schema, hschema, hne⟩
    cases ho.symm.trans ho'
    cases hresponses.symm.trans hresponses'
    exact hne (eq_null_of_firstResponseSchema hfound code hcode body n schema hbody hschema)

theorem returns_of_responseSchema {id : Value} (h : d.responseSchema id = .ok node) :
    d.Returns id := by
  obtain ⟨o, ho, responses, hresponses, code, hcode, body, n, hbody, hschema⟩ :=
    exists_body_of_responseSchema h
  exact ⟨o, ho, responses, hresponses, code, hcode, body, n, hbody, node, hschema⟩

theorem requestSchema_failsOnly (hd : d.Regular) (id : String) :
    FailsOnly (fun e => ∃ part, e = .missing part) (d.requestSchema (.text id)) := by
  refine ((operation_failsOnly id).mono fun _ he => he.1).bind fun o ho => ?_
  have hregular := hd.operations o (mem_of_operation ho)
  refine failsOnly_bind_of_ok hregular.request.followable.resolve fun r hresolve => ?_
  obtain ⟨body?, n⟩ := r
  split
  · exact failsOnly_error ⟨_, rfl⟩
  · exact failsOnly_error ⟨_, rfl⟩
  · rename_i body _ hbody
    cases hbody
    refine failsOnly_bind_of_ok (hregular.request.bodySchema hresolve) fun schema _ => ?_
    split
    · exact failsOnly_error ⟨_, rfl⟩
    · exact failsOnly_ok _

/-! ## Declared schemas -/

/-- A schema is declared under a name. -/
def Declares (d : Document) (name : String) : Prop :=
  ∃ components, (d.root.get "components").membersOrNone = .ok components ∧
    ∃ schemas, (Members.get components "schemas").membersOrNone = .ok schemas ∧
      (Members.get? schemas name).isSome = true

theorem contains_orElse {v : Value} (h : v.Optionally IsObject) {ms : Members}
    (hms : v.membersOrNone = .ok ms) (name : String) :
    (v.orElse (.object [])).contains (.text name) = .ok (ms.get? name).isSome := by
  unfold Value.membersOrNone at hms
  unfold Value.orElse
  split at hms
  · rename_i hgiven
    obtain ⟨members, hmembers⟩ := h hgiven
    rw [if_pos hgiven]
    rw [Value.members, hmembers] at hms
    cases hms
    unfold Value.members? at hmembers
    unfold Value.contains
    split at hmembers
    · rename_i hbare
      cases hmembers
      simp only [hbare]
      rfl
    · cases hmembers
  · rename_i hgiven
    cases hms
    rw [if_neg hgiven]
    rfl

/-- A schema is missing exactly if it is not declared. -/
theorem schema_failsOnly (hd : d.Regular) (name : String) :
    FailsOnly (fun e => (∃ part, e = .missing part) ∧ ¬ d.Declares name)
      (d.schema (.text name)) := by
  refine failsOnly_bind_of_ok (Value.membersOrNone_ok hd.components)
    fun components hcomponents => ?_
  have hregular := hd.schemas components hcomponents
  obtain ⟨schemas, hschemas⟩ := Value.membersOrNone_ok hregular
  have hcontains := contains_orElse hregular hschemas name
  refine failsOnly_bind_of_ok ⟨_, hcontains⟩ fun declared hdeclared => ?_
  cases hcontains.symm.trans hdeclared
  split
  · exact failsOnly_ok _
  · rename_i habsent
    refine failsOnly_error ⟨⟨.schema (.text name), rfl⟩, ?_⟩
    rintro ⟨components', hcomponents', schemas', hschemas', hsome⟩
    cases hcomponents.symm.trans hcomponents'
    cases hschemas.symm.trans hschemas'
    exact habsent hsome

theorem declares_of_schema (hd : d.Regular) {name : String} (h : d.schema (.text name) = .ok node) :
    d.Declares name := by
  simp only [schema, Result.bind_eq_ok] at h
  obtain ⟨components, hcomponents, declared, hdeclared, h⟩ := h
  have hregular := hd.schemas components hcomponents
  obtain ⟨schemas, hschemas⟩ := Value.membersOrNone_ok hregular
  cases (contains_orElse hregular hschemas name).symm.trans hdeclared
  split at h
  · rename_i hsome
    exact ⟨components, hcomponents, schemas, hschemas, hsome⟩
  · cases h

/-! ## Parameters -/

theorem resolveParameters_ok {raws : List Value} (h : ∀ raw ∈ raws, d.Followable raw) :
    ∃ params, d.resolveParameters raws = .ok params := by
  refine Result.ok_of_never ?_
  induction raws with
  | nil => exact failsOnly_ok _
  | cons raw rest ih =>
    obtain ⟨hraw, hrest⟩ := List.forall_mem_cons.1 h
    refine failsOnly_bind_of_ok hraw.resolve fun r _ => (ih hrest).bind fun others _ => ?_
    split <;> exact failsOnly_ok _

theorem mem_resolveParameters {raws : List Value} :
    ∀ {params : List Members}, d.resolveParameters raws = .ok params → ∀ param ∈ params,
      ∃ raw ∈ raws, ∃ n, d.resolve raw = .ok ⟨some param, n⟩ := by
  induction raws with
  | nil =>
    intro params h
    cases h
    exact nofun
  | cons raw rest ih =>
    intro params h
    simp only [resolveParameters, Result.bind_eq_ok] at h
    obtain ⟨⟨found, n⟩, hresolve, others, hothers, h⟩ := h
    have hlater : ∀ param ∈ others, ∃ r ∈ raw :: rest, ∃ n, d.resolve r = .ok ⟨some param, n⟩ := by
      intro param hparam
      obtain ⟨r, hr, hfound⟩ := ih hothers param hparam
      exact ⟨r, List.mem_cons_of_mem _ hr, hfound⟩
    split at h
    · cases h
      exact hlater
    · cases h
      exact hlater
    · rename_i param _ hparam
      cases h
      cases hparam
      exact List.forall_mem_cons.2 ⟨⟨raw, List.mem_cons_self, n, hresolve⟩, hlater⟩

/-- An operation that the document has can be asked for its parameters. -/
theorem parameters_ok (hd : d.Regular) (h : d.has (.text id) = .ok true) :
    ∃ params, d.parameters (.text id) = .ok params := by
  refine Result.ok_of_never ?_
  refine ((operation_failsOnly id).mono fun e he => ?_).bind fun o ho => ?_
  · cases h.symm.trans he.2
  have hregular := hd.operations o (mem_of_operation ho)
  refine failsOnly_bind_of_ok (Value.itemsOrNone_ok hregular.parameters) fun own hown => ?_
  exact Result.failsOnly_of_ok (resolveParameters_ok (hregular.followable own hown))

/-- Only an operation that the document has can be asked for its parameters. -/
theorem has_of_parameters {params : List Members} (h : d.parameters node = .ok params) :
    d.has node = .ok true := by
  simp only [parameters, operation, Result.bind_eq_ok] at h
  obtain ⟨o, ⟨found, hfound, ho⟩, -⟩ := h
  cases found with
  | none => cases ho
  | some o =>
    rw [has, hfound]
    rfl

theorem parameter_of_mem {params : List Members} (h : d.parameters node = .ok params) :
    ∀ param ∈ params, d.Parameter param := by
  simp only [parameters, Result.bind_eq_ok] at h
  obtain ⟨o, ho, own, hown, h⟩ := h
  intro param hparam
  exact ⟨o, mem_of_operation ho, own, hown, mem_resolveParameters h param hparam⟩

end Document

end ApiModels
