/-
ApiModels.Proofs.Extract.Stated — the descriptions that a document states.

`Document.States` is where a schema states the description of a field: in
the schema of the property that stands at the same place. What the walk
gives has these descriptions, escaped (`Extractor.extract_stated`), and
filters have those of the parameters that they are (`Filter.ofOperation_spec`).
What else a filter says, its parameter declares (`Filter.Declares`).
-/
import ApiModels.Extract.Filters
import ApiModels.Proofs.Extract.Walk
import ApiModels.Proofs.Field.Sourced

namespace ApiModels

namespace Document

open ApiModels.Field (Step)

/-- A schema states a text as the description of a property, steps down from its own. -/
inductive States (d : Document) : Value → List Step → Scalar → String → Prop where
  | here {node schema n name inner property refName text}
      (hresolve : d.resolve node = .ok ⟨some schema, n⟩) (h : d.HasProperty schema name inner)
      (hinner : d.resolve inner = .ok ⟨some property, refName⟩)
      (htext : Schema.textOrNone (property.get "description") = .ok text) :
      States d node [] name text
  | object {node schema n name inner steps last text}
      (hresolve : d.resolve node = .ok ⟨some schema, n⟩) (h : d.HasProperty schema name inner)
      (hbelow : States d inner steps last text) :
      States d node (.object name :: steps) last text
  | items {node schema n name inner property refName steps last text}
      (hresolve : d.resolve node = .ok ⟨some schema, n⟩) (h : d.HasProperty schema name inner)
      (hinner : d.resolve inner = .ok ⟨some property, refName⟩)
      (hbelow : States d (property.get "items") steps last text) :
      States d node (.items name :: steps) last text

/-- The parameter of an operation that has a name states a text as its description. -/
def ParameterStates (d : Document) (id : Value) (name : Scalar) (text : String) : Prop :=
  ∃ params, d.parameters id = .ok params ∧ ∃ param ∈ params,
    (param.getOr "name" (.text "")).key = .ok name ∧
    Schema.textOrNone (param.get "description") = .ok text

end Document

/-! ## Fields -/

namespace Extractor

variable {x : Extractor} {nested : Nested} {path name : Scalar} {node : Value}

/-- The descriptions that a schema states, escaped. -/
def stated (x : Extractor) (node : Value) : Field.Source := fun steps name description =>
  ∃ text, x.document.States node steps name text ∧ description = Description.escape text

theorem FieldOf.stated {schema : Members} {n : String} {inner : Value} {f : Field}
    (hresolve : x.document.resolve node = .ok ⟨some schema, n⟩)
    (hproperty : x.document.HasProperty schema name inner)
    (hof : x.FieldOf nested path name inner f)
    (hnested : ∀ path v fields, nested path v = .ok fields →
      ∀ f ∈ fields, Field.Sourced (x.stated v) f) : Field.Sourced (x.stated node) f := by
  have here : ∀ {property refName info},
      x.document.resolve inner = .ok ⟨some property, refName⟩ →
      x.Said property name refName info → x.stated node [] info.name info.description := by
    intro property refName info hinner said
    obtain ⟨text, htext, hescape⟩ := said.described
    exact ⟨text, .here hresolve (said.name ▸ hproperty) hinner htext, hescape⟩
  refine Field.sourced_iff.2 fun _ => ?_
  cases hof with
  | leaf hinner said =>
    refine ⟨here hinner said, fun step _ g hg => ?_⟩
    cases step <;> cases hg
  | items hinner said _ _ _ hwalk =>
    refine ⟨here hinner said, fun step hstep g hg => ?_⟩
    cases step with
    | object n => cases hg
    | items n =>
      cases hstep
      refine (hnested _ _ _ hwalk g hg).mono ?_
      rintro steps last description ⟨text, htext, hescape⟩
      rw [← said.name] at hproperty
      exact ⟨text, .items hresolve hproperty hinner htext, hescape⟩
  | object hinner said _ hwalk =>
    refine ⟨here hinner said, fun step hstep g hg => ?_⟩
    cases step with
    | object n =>
      cases hstep
      refine (hnested _ _ _ hwalk g hg).mono ?_
      rintro steps last description ⟨text, htext, hescape⟩
      rw [← said.name] at hproperty
      exact ⟨text, .object hresolve hproperty htext, hescape⟩
    | items n => cases hg

/-- What is extracted from a schema has the descriptions that it states, escaped. -/
theorem extract_stated {fields : List Field} (h : x.extract node = .ok fields) :
    ∀ f ∈ fields, Field.Sourced (x.stated node) f := by
  refine extract_induction (G := fun _ node fields =>
    ∀ f ∈ fields, Field.Sourced (x.stated node) f) ?_ h
  intro nested path node fields inner hlevel f hf
  cases hlevel with
  | nothing => cases hf
  | fields hresolve _ made _ =>
    obtain ⟨name, v, hproperty, hof⟩ := made f hf
    exact hof.stated hresolve hproperty inner

end Extractor

/-! ## Filters -/

namespace Filter

variable {x : Extractor} {id : Value}

/-- A parameter declares a filter: its name, its type and the values that it enumerates. -/
structure Declares (x : Extractor) (param : Members) (f : Filter) : Prop where
  query : param.get "in" = .text "query"
  given : (param.getOr "name" (.text "")).given = true
  name : (param.getOr "name" (.text "")).key = .ok f.name
  filtering : ∀ s ∈ ignored, f.name ≠ .text s
  typed : ∃ schema n t values, x.document.resolve (param.get "schema") = .ok ⟨some schema, n⟩ ∧
    x.schemaType schema = .ok t ∧ t ≠ .array ∧ t ≠ .object ∧
    f.type = (AttrKind.ofType t).validator ∧
    (schema.get "enum").itemsOrNone = .ok values ∧ Value.toldEach values = .ok f.enum

theorem query_iff {v : Value} : v.text? = some "query" ↔ v = .text "query" := by
  unfold Value.text?
  split
  · simp [Value.text]
  · rename_i hnot
    simpa using fun h => hnot _ h

theorem filtering_iff {name : Scalar} :
    (ignored.any fun s => name.same (.text s)) = false ↔ ∀ s ∈ ignored, name ≠ .text s := by
  rw [List.any_eq_false]
  exact forall₂_congr fun s _ => Scalar.same_text_iff.not

/-- What is read as a filter is what the parameter declares, with its description escaped. -/
theorem ofParameter_spec {param : Members} {f : Filter}
    (h : ofParameter x id param = .ok (some f)) :
    Declares x param f ∧ ∃ text, Schema.textOrNone (param.get "description") = .ok text ∧
      f.description = Description.escape text := by
  unfold ofParameter at h
  split at h
  · cases h
  rename_i hquery
  dsimp only at h
  split at h
  · cases h
  rename_i hgiven
  rw [Result.bind_eq_ok] at h
  obtain ⟨name, hname, h⟩ := h
  split at h
  · cases h
  rename_i hignored
  rw [Result.bind_eq_ok] at h
  obtain ⟨⟨reached, n⟩, hresolve, h⟩ := h
  split at h
  · cases h
  rename_i schema hreached
  cases hreached
  rw [Result.bind_eq_ok] at h
  obtain ⟨t, ht, h⟩ := h
  split at h
  · obtain ⟨_, -, h⟩ := Result.bind_eq_ok.1 h
    cases h
  · obtain ⟨_, -, h⟩ := Result.bind_eq_ok.1 h
    cases h
  · rename_i harray hobject
    simp only [Result.bind_eq_ok] at h
    obtain ⟨text, htext, values, hvalues, enum, henum, h⟩ := h
    cases h
    refine ⟨⟨query_iff.1 (by simpa using hquery), by simpa using hgiven, hname,
      filtering_iff.1 (by simpa using hignored), ?_⟩, text, htext, rfl⟩
    exact ⟨schema, n, t, values, hresolve, ht, harray, hobject, rfl, hvalues, henum⟩

theorem ofParameters_spec {params : List Members} :
    ∀ {filters : List Filter}, ofParameters x id params = .ok filters →
      ∀ f ∈ filters, ∃ param ∈ params, ofParameter x id param = .ok (some f) := by
  induction params with
  | nil =>
    intro filters h
    cases h
    exact nofun
  | cons param rest ih =>
    intro filters h
    simp only [ofParameters, Result.bind_eq_ok] at h
    obtain ⟨first, hfirst, others, hothers, h⟩ := h
    cases h
    intro f hf
    rcases List.mem_append.1 hf with hf | hf
    · exact ⟨param, List.mem_cons_self, Option.mem_toList.1 hf ▸ hfirst⟩
    · obtain ⟨p, hp, hof⟩ := ih hothers f hf
      exact ⟨p, List.mem_cons_of_mem _ hp, hof⟩

/-- A filter that is described for a resource, or for none where the resource has no name. -/
def described (resource : String) (f : Filter) : Filter :=
  if resource = "" then f
  else { f with description := Description.ofField f.name.display resource f.description }

@[simp] theorem described_name (resource : String) (f : Filter) :
    (described resource f).name = f.name := by
  unfold described
  split <;> rfl

theorem describe_eq_described {resource : String} (hnamed : resource ≠ "") {f g : Filter}
    (h : describe resource f = .ok g) : g = described resource f := by
  rw [described, if_neg hnamed]
  unfold describe at h
  split at h
  · rename_i henough
    cases h
    rw [Description.ofField, if_pos henough]
  · split at h
    · rename_i name hname
      cases h
      rw [hname]
      rfl
    · cases h

theorem describeAll_eq_map {resource : String} (hnamed : resource ≠ "") {filters : List Filter} :
    ∀ {all : List Filter}, describeAll resource filters = .ok all →
      all = filters.map (described resource) := by
  induction filters with
  | nil =>
    intro all h
    cases h
    rfl
  | cons f rest ih =>
    intro all h
    simp only [describeAll, Result.bind_eq_ok] at h
    obtain ⟨first, hfirst, others, hothers, h⟩ := h
    cases h
    rw [List.map_cons, describe_eq_described hnamed hfirst, ih hothers]

/-- An operation has no filters, or they are read of its parameters, sorted and described. -/
theorem ofOperation_cases {d : Document} {resource : String} {filters : List Filter}
    (h : ofOperation d id resource = .ok filters) :
    (filters = [] ∧ (id.given = false ∨ d.has id = .ok false)) ∨
    ∃ params read sorted, d.parameters id = .ok params ∧
      ofParameters { document := d } id params = .ok read ∧
      sortOnKey (·.name) read = .ok sorted ∧ filters = sorted.map (described resource) := by
  unfold ofOperation at h
  split at h
  · rename_i hgiven
    cases h
    exact .inl ⟨rfl, .inl (by simpa using hgiven)⟩
  rw [Result.bind_eq_ok] at h
  obtain ⟨found, hfound, h⟩ := h
  split at h
  · rename_i hmissing
    cases h
    exact .inl ⟨rfl, .inr (by simpa [hfound] using hmissing)⟩
  simp only [Result.bind_eq_ok] at h
  obtain ⟨params, hparams, read, hread, sorted, hsorted, h⟩ := h
  refine .inr ⟨params, read, sorted, hparams, hread, hsorted, ?_⟩
  split at h
  · rename_i hunnamed
    cases h
    have hplain : described resource = fun f => f :=
      funext fun f => if_pos (by simpa using hunnamed)
    rw [hplain, List.map_id']
  · rename_i hnamed
    exact describeAll_eq_map (by simpa using hnamed) h

/-- A filter has the description of its parameter, escaped, and then described for its resource. -/
theorem ofOperation_spec {d : Document} {resource : String} {filters : List Filter}
    (h : ofOperation d id resource = .ok filters) :
    ∀ f ∈ filters, ∃ text, d.ParameterStates id f.name text ∧
      (resource = "" → f.description = Description.escape text) ∧
      (resource ≠ "" → f.description =
        Description.ofField f.name.display resource (Description.escape text)) := by
  obtain ⟨rfl, -⟩ | ⟨params, read, sorted, hparams, hread, hsorted, rfl⟩ := ofOperation_cases h
  · exact nofun
  intro g hg
  obtain ⟨f, hf, rfl⟩ := List.mem_map.1 hg
  obtain ⟨param, hparam, hof⟩ :=
    ofParameters_spec hread f ((sortOnKey_perm hsorted).mem_iff.1 hf)
  obtain ⟨hdeclares, text, htext, hescape⟩ := ofParameter_spec hof
  rw [described_name]
  refine ⟨text, ⟨params, hparams, param, hparam, hdeclares.name, htext⟩, fun hunnamed => ?_,
    fun hnamed => ?_⟩
  · rw [described, if_pos hunnamed, hescape]
  · rw [described, if_neg hnamed, hescape]

end Filter

end ApiModels
