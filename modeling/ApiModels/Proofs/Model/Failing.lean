/-
ApiModels.Proofs.Model.Failing — when building fails, and what it leaves.

In a regular document whose bounds are within the doubles a resource fails in
three ways: its plugin is unknown, it lacks a part, or one of its filters has
a value that cannot be told, which is a whole number of too many digits. A
data source fails in the last way only. Either leaves the registry as it was,
so a run that fails leaves what the definitions before the failing one have
put there (`failures_of_regular`).

What can stop a definition is in `Stops`. Here it is shown that the ways
exclude each other, and that what can stop a resource does stop it.
-/
import ApiModels.Proofs.Model.Stops

namespace ApiModels

open ApiModels.Value (IsList)

namespace Builder

variable {b : Builder} {r : ResourceSettings} {s : DataSourceSettings}

/-! ## Resources -/

/-- When the building of a resource fails, in which way, and what it leaves of a registry. -/
structure ResourceFails (b : Builder) (r : ResourceSettings) (registry : NameRegistry) : Prop where
  missing : (∃ part, (b.resource r registry).1 = .error (.missing part)) ↔ b.Lacking r
  unknownPlugin : (b.resource r registry).1 = .error (.unknownPlugin r.plugin) ↔ r.UnknownPlugin
  tooManyDigits : (b.resource r registry).1 = .error (.tooManyDigits none) ↔
    ¬ r.UnknownPlugin ∧ ¬ b.Lacking r ∧ b.UntoldFilter r.baseOperationId
  only : ∀ e, (b.resource r registry).1 = .error e →
    (∃ part, e = .missing part) ∨ e = .unknownPlugin r.plugin ∨ e = .tooManyDigits none
  unchanged : ∀ e, (b.resource r registry).1 = .error e → (b.resource r registry).2 = registry

theorem Lacking.known (hr : r.Typed) (h : b.Lacking r) : ¬ r.UnknownPlugin := by
  cases h with
  | offering hplugin _ _ | response hplugin _ _ => exact known_of_ofValue hr hplugin

/-- Where there is a draft, nothing stops the resource. -/
theorem not_stopped_of_draft (hd : b.document.Regular) (hr : r.Typed) {d : Draft}
    (h : b.draft r = .ok d) :
    ¬ (r.UnknownPlugin ∨ b.Lacking r ∨ b.UntoldFilter r.baseOperationId) := by
  obtain ⟨s, -⟩ := draft_spec h
  rintro (hunknown | hlacking | huntold)
  · exact known_of_ofValue hr s.plugin_eq hunknown
  · exact not_lacking hd s.plugin_eq s.create_eq s.response_eq hlacking
  · exact Filter.not_untold_of_ofOperation hd (by simp) s.filters_eq huntold

/-- A resource that something stops fails at one of the things that stop it. -/
theorem exists_error_of_stopped (hd : b.document.Regular) (hr : r.Typed) (registry : NameRegistry)
    (h : r.UnknownPlugin ∨ b.Lacking r ∨ b.UntoldFilter r.baseOperationId) :
    ∃ e, (b.resource r registry).1 = .error e ∧ b.StopsAt (.resource r) e := by
  rcases resource_cases hd hr registry with ⟨e, hdraft, hrun⟩ | ⟨d, _, _, hdraft, -⟩
  · exact ⟨e, by rw [hrun], draft_failsOnly hd hr e hdraft⟩
  · exact absurd h (not_stopped_of_draft hd hr hdraft)

/-- A resource that fails does so at what stops it, and leaves the registry as it was. -/
theorem stopsAt_of_resource (hd : b.document.Regular) (hr : r.Typed) {registry : NameRegistry}
    {e : Failure} (h : (b.resource r registry).1 = .error e) :
    (b.resource r registry).2 = registry ∧ b.StopsAt (.resource r) e :=
  stopsAt_of_definition hd (d := .resource r) hr (Prod.ext h rfl)

theorem resource_fails (hd : b.document.Regular) (hbounds : b.document.Bounded) (hr : r.Typed)
    (registry : NameRegistry) : b.ResourceFails r registry where
  missing := by
    constructor
    · rintro ⟨part, he⟩
      cases (stopsAt_of_resource hd hr he).2 with
      | lacking h => exact h
      | overflow h => cases h.1
    · intro hlacking
      obtain ⟨e, he, hstop⟩ := exists_error_of_stopped hd hr registry (.inr (.inl hlacking))
      cases hstop with
      | unknownPlugin h => exact absurd h (hlacking.known hr)
      | lacking _ => exact ⟨_, he⟩
      | filter _ hcomplete _ => exact absurd hlacking hcomplete
      | overflow h => exact absurd hbounds h.2
  unknownPlugin := by
    constructor
    · intro he
      cases (stopsAt_of_resource hd hr he).2 with
      | unknownPlugin h => exact h
      | overflow h => cases h.1
    · intro hunknown
      obtain ⟨e, he, hstop⟩ := exists_error_of_stopped hd hr registry (.inl hunknown)
      cases hstop with
      | unknownPlugin _ => exact he
      | lacking h => exact absurd hunknown (h.known hr)
      | filter hknown _ _ => exact absurd hunknown hknown
      | overflow h => exact absurd hbounds h.2
  tooManyDigits := by
    constructor
    · intro he
      cases (stopsAt_of_resource hd hr he).2 with
      | filter hknown hcomplete h => exact ⟨hknown, hcomplete, h⟩
      | overflow h => cases h.1
    · rintro ⟨hknown, hcomplete, huntold⟩
      obtain ⟨e, he, hstop⟩ := exists_error_of_stopped hd hr registry (.inr (.inr huntold))
      cases hstop with
      | unknownPlugin h => exact absurd h hknown
      | lacking h => exact absurd h hcomplete
      | filter _ _ _ => exact he
      | overflow h => exact absurd hbounds h.2
  only := by
    intro e he
    cases (stopsAt_of_resource hd hr he).2 with
    | unknownPlugin _ => exact .inr (.inl rfl)
    | lacking _ => exact .inl ⟨_, rfl⟩
    | filter _ _ _ => exact .inr (.inr rfl)
    | overflow h => exact absurd hbounds h.2
  unchanged := fun _ he => (stopsAt_of_resource hd hr he).1

/-! ## Data sources -/

/-- When the building of a data source fails, and what it leaves of a registry. -/
structure DataSourceFails (b : Builder) (s : DataSourceSettings) (registry : NameRegistry) :
    Prop where
  tooManyDigits : (b.dataSource s registry).1 = .error (.tooManyDigits none) ↔
    b.UntoldFilter s.baseOperationId
  only : ∀ e, (b.dataSource s registry).1 = .error e → e = .tooManyDigits none
  unchanged : ∀ e, (b.dataSource s registry).1 = .error e → (b.dataSource s registry).2 = registry

theorem dataSource_fails (hd : b.document.Regular) (hbounds : b.document.Bounded) (hs : s.Typed)
    (registry : NameRegistry) : b.DataSourceFails s registry := by
  have hstops : ∀ e, (b.dataSource s registry).1 = .error e →
      (b.dataSource s registry).2 = registry ∧ b.StopsAt (.dataSource s) e := fun e he =>
    stopsAt_of_definition hd (d := .dataSource s) hs (Prod.ext he rfl)
  have honly : ∀ e, (b.dataSource s registry).1 = .error e → e = .tooManyDigits none := by
    intro e he
    cases (hstops e he).2 with
    | viewFilter _ => rfl
    | overflow h => exact absurd hbounds h.2
  refine ⟨⟨fun he => ?_, fun huntold => ?_⟩, honly, fun e he => (hstops e he).1⟩
  · cases (hstops _ he).2 with
    | viewFilter h => exact h
    | overflow h => cases h.1
  · rcases dataSource_cases hd hs registry with ⟨e, -, hrun⟩ | ⟨d, _, _, hdraft, -⟩
    · have he : (b.dataSource s registry).1 = .error e := by rw [hrun]
      exact honly e he ▸ he
    · obtain ⟨name, fields, filters⟩ := d
      simp only [dataSourceDraft, Result.bind_eq_ok] at hdraft
      obtain ⟨_, -, name', -, _, -, _, -, found, hfilters, -⟩ := hdraft
      exact absurd huntold (Filter.not_untold_of_ofOperation hd (by simp) hfilters)

/-! ## A machine with a size

Machines have a size that is no less than some bound, and can be listed by a filter that has one
value. Whatever the bound and the value are, their document is regular.
-/

namespace Sample

/-- A size that is a whole number from a bound on. -/
def sizeNode (minimum : Int) : Value :=
  .record [("type", .text "integer"), ("minimum", .int minimum)]

def machineNode (minimum : Int) : Value :=
  .record [("properties", .record [("size", sizeNode minimum)])]

/-- The schema of a filter by one value. -/
def choiceNode (value : Value) : Value :=
  .record [("type", .text "string"), ("enum", .list [value])]

def parameterNode (value : Value) : Value :=
  .record [("name", .text "state"), ("in", .text "query"), ("schema", choiceNode value)]

/-- Machines have a size, and can be listed by a filter. -/
def listing (minimum : Int) (value : Value) : Document where
  root := []
  operations :=
    [⟨.text "vm_retrieve", .text "/vms/1/", "GET",
       [(.text "responses", .record [("200", json (machineNode minimum))])], []⟩,
     ⟨.text "vm_list", .text "/vms/", "GET",
       [(.text "parameters", .list [parameterNode value])], []⟩]

/-- The nodes where schemas stand in the document, and the one that stands for none. -/
inductive Spot (minimum : Int) (value : Value) : Value → Prop where
  | machine : Spot minimum value (machineNode minimum)
  | size : Spot minimum value (sizeNode minimum)
  | choice : Spot minimum value (choiceNode value)
  | absent : Spot minimum value .null

variable {minimum : Int} {value node : Value}

theorem Spot.items {schema : Members} {n : String} (h : Spot minimum value node)
    (hresolve : (listing minimum value).resolve node = .ok ⟨some schema, n⟩) :
    Spot minimum value (schema.get "items") := by
  cases h <;> cases hresolve <;> exact .absent

theorem Spot.property {schema : Members} {n : String} {name : Scalar} {inner : Value}
    (h : Spot minimum value node)
    (hresolve : (listing minimum value).resolve node = .ok ⟨some schema, n⟩)
    (hproperty : (listing minimum value).HasProperty schema name inner) :
    Spot minimum value inner := by
  obtain ⟨hown, hmem⟩ | ⟨hparts, hpart, -, -, -⟩ := hproperty
  · cases h with
    | size | choice => cases hresolve; cases hown; cases hmem
    | absent => cases hresolve
    | machine =>
      cases hresolve
      cases hown
      cases List.mem_singleton.1 hmem
      exact .size
  · cases h <;> cases hresolve <;> cases hparts <;> cases hpart

theorem spot_of_schema (h : (listing minimum value).Schema node) : Spot minimum value node := by
  induction h with
  | request ho hbody hnode =>
    obtain ho | ⟨_, ho⟩ := ho
    · cases hbody
    · cases List.mem_singleton.1 ho
      cases hbody
  | response ho hresponses hcode hbody hnode =>
    simp only [Document.successCodes, List.mem_cons, List.not_mem_nil, or_false] at hcode
    obtain ho | ⟨_, ho⟩ := ho
    · cases hresponses
      rcases hcode with rfl | rfl | rfl <;> cases hbody
      cases hnode
      exact .machine
    · cases List.mem_singleton.1 ho
      cases hresponses
      rcases hcode with rfl | rfl | rfl <;> cases hbody
  | component h => exact absurd h (Document.schema_ne_ok_of_empty rfl _ _)
  | items _ hresolve ih => exact ih.items hresolve
  | property _ hresolve h ih => exact ih.property hresolve h

theorem parameter_eq {param : Members} (h : (listing minimum value).Parameter param) :
    param = [(.text "name", .text "state"), (.text "in", .text "query"),
      (.text "schema", choiceNode value)] := by
  obtain ⟨o, ho, own, hown, raw, hraw, n, hresolve⟩ := h
  obtain ho | ⟨_, ho⟩ := ho
  · cases hown
    cases hraw
  · cases List.mem_singleton.1 ho
    cases hown
    cases List.mem_singleton.1 hraw
    cases hresolve
    rfl

theorem spot_of_place (h : (listing minimum value).Place node) : Spot minimum value node := by
  induction h with
  | schema h => exact spot_of_schema h
  | parameter h =>
    cases parameter_eq h
    exact .choice
  | part _ hresolve hparts hpart ih =>
    cases ih <;> cases hresolve <;> cases hparts <;> cases hpart
  | alternative _ hresolve halternatives _ ih =>
    cases ih <;> cases hresolve <;> cases halternatives
  | values _ hresolve ih => cases ih <;> cases hresolve <;> exact .absent

theorem regular_of_spot {schema : Members} {n : String} (h : Spot minimum value node)
    (hresolve : (listing minimum value).resolve node = .ok ⟨some schema, n⟩) :
    Document.RegularSchema schema := by
  have hnone : ∀ {T : Value → Prop}, Value.null.Optionally T := fun {T} => Value.optionally_null T
  have hparts : ∀ member ∈ Schema.compositions, (Members.get schema member).Optionally IsList := by
    simp only [Schema.compositions, List.forall_mem_cons]
    cases h <;> cases hresolve <;> exact ⟨hnone, hnone, hnone, nofun⟩
  cases h with
  | absent => cases hresolve
  | machine =>
    cases hresolve
    refine ⟨fun _ => ⟨_, rfl⟩, ?_, hnone, hparts, hnone, hnone⟩
    rintro properties ⟨⟩
    exact List.forall_mem_singleton.2 rfl
  | size =>
    cases hresolve
    refine ⟨hnone, ?_, hnone, hparts, hnone, hnone⟩
    rintro properties ⟨⟩
    exact nofun
  | choice =>
    cases hresolve
    refine ⟨hnone, ?_, hnone, hparts, fun _ => ⟨_, rfl⟩, hnone⟩
    rintro properties ⟨⟩
    exact nofun

theorem regular_listing : (listing minimum value).Regular where
  components := Value.optionally_null _
  schemas := by
    rintro _ ⟨⟩
    exact Value.optionally_null _
  operations := by
    have hnowhere : ∀ node : Value, node.members? = none →
        (listing minimum value).RegularBody node := by
      intro node hnode
      refine ⟨Document.followable_of_plain fun ms hms => ?_, fun body n hresolve => ?_⟩
      · cases hnode.symm.trans hms
      · rw [Document.resolve, Members.resolve, hnode] at hresolve
        cases hresolve
    have hjson : (listing minimum value).RegularBody (json (machineNode minimum)) := by
      refine ⟨Document.followable_of_plain ?_, ?_⟩
      · rintro _ ⟨⟩
        rfl
      · rintro _ n ⟨⟩
        refine ⟨fun _ => ⟨_, rfl⟩, ?_⟩
        rintro _ ⟨⟩
        exact fun _ => ⟨_, rfl⟩
    simp only [listing, List.forall_mem_cons]
    refine ⟨⟨hnowhere _ rfl, fun _ => ⟨_, rfl⟩, ?_, Value.optionally_null _, ?_⟩,
      ⟨hnowhere _ rfl, Value.optionally_null _, ?_, fun _ => ⟨_, rfl⟩, ?_⟩, List.forall_mem_nil _⟩
    · rintro _ ⟨⟩
      simp only [Document.successCodes, List.forall_mem_cons]
      exact ⟨hjson, hnowhere _ rfl, hnowhere _ rfl, List.forall_mem_nil _⟩
    · rintro _ ⟨⟩
      exact List.forall_mem_nil _
    · rintro _ ⟨⟩ code -
      exact hnowhere _ rfl
    · rintro _ ⟨⟩
      refine List.forall_mem_singleton.2 (Document.followable_of_plain ?_)
      rintro _ ⟨⟩
      rfl
  parameters := by
    intro param hparam
    cases parameter_eq hparam
    exact ⟨fun _ => ⟨_, rfl⟩, Value.optionally_null _⟩
  followable := by
    intro node hplace
    refine Document.followable_of_plain ?_
    cases spot_of_place hplace <;> rintro _ ⟨⟩ <;> rfl
  places := fun node schema n hplace => regular_of_spot (spot_of_place hplace)

/-- A bound that is within the doubles leaves the document so. -/
theorem bounded_listing (h : Document.WithinDoubles (.int minimum)) :
    (listing minimum value).Bounded := by
  intro node schema n hplace hresolve
  have hnull : Document.WithinDoubles .null := nofun
  simp only [List.forall_mem_cons]
  cases spot_of_place hplace with
  | absent => cases hresolve
  | machine | choice =>
    cases hresolve
    exact ⟨hnull, hnull, nofun⟩
  | size =>
    cases hresolve
    exact ⟨h, hnull, nofun⟩

/-- Machines are standard resources, and nothing else is set for them. -/
def machine : ResourceSettings :=
  { settings with offeringType := .text "", linkOp := .text "", unlinkOp := .text "" }

theorem machine_typed : machine.Typed where
  name := ⟨_, rfl⟩
  baseOperationId := ⟨_, rfl⟩
  plugin := ⟨_, rfl⟩
  offeringType := ⟨_, rfl⟩
  updateActions := nofun
  actions := nofun
  terminationAttributes := nofun
  createOperation := nofun
  linkOp := ⟨_, rfl⟩
  unlinkOp := ⟨_, rfl⟩
  ends := by rintro e (h | h) <;> cases h
  linkParams := nofun

/-- Machines are all that is built. -/
def machines : Config where
  generator :=
    { openapiSchema := .text "api.json", outputDir := .text "models"
      providerName := .text "cloud", maxDepth := 3, identifierField := .text "uuid"
      excludedFields := [], setFields := [], fieldOverrides := [] }
  resources := [machine]
  dataSources := []

theorem machines_typed : ∀ d ∈ machines.definitions, d.Typed :=
  List.forall_mem_singleton.2 machine_typed

/-- Machines are built from the document of their sizes and their filter. -/
def machineBuilder (minimum : Int) (value : Value) : Builder where
  config := machines
  extractor := { document := listing minimum value }

theorem ofConfig_machines : Builder.ofConfig machines (listing minimum value) =
    .ok (machineBuilder minimum value) := by
  rfl

/-- A whole number that has too many digits to be told. -/
def untold : Value := .int (.ofNat (Nat.pow 10 4300))

theorem bounded_untold : (listing 0 untold).Bounded :=
  bounded_listing (by rintro _ ⟨⟩; decide +kernel)

theorem untoldFilter : (machineBuilder 0 untold).UntoldFilter machine.baseOperationId := by
  have hfilters : Filter.Filters (listing 0 untold)
      [(.text "name", .text "state"), (.text "in", .text "query"),
        (.text "schema", choiceNode untold)]
      [(.text "type", .text "string"), (.text "enum", .list [untold])] :=
    ⟨rfl, ⟨"state", rfl, by decide, by decide⟩, ⟨"", rfl⟩, .string, rfl, nofun, nofun⟩
  have hvalue : untold.canBeTold = false := by decide +kernel
  exact ⟨_, rfl, _, List.mem_singleton_self _, _, hfilters, [untold], rfl, untold,
    List.mem_singleton_self _, hvalue⟩

theorem machine_known : ¬ machine.UnknownPlugin := fun h => h.2 .standard rfl

theorem machine_complete (minimum : Int) (value : Value) :
    ¬ (machineBuilder minimum value).Lacking machine := by
  rintro (⟨hplugin, -, -⟩ | ⟨-, -, hno⟩)
  · cases hplugin
  · have hschema : (listing minimum value).responseSchema
        (ResourceSettings.derivedId machine.baseOperationId "retrieve") =
          .ok (machineNode minimum) := rfl
    exact hno (Document.returns_of_responseSchema hschema)

end Sample

/-! ## Runs -/

/-- What stops a definition is told under its name, save a bound that is beyond the doubles. -/
theorem underName_of_stopsAt {d : Definition} (hdef : d.Typed) {e : Failure}
    (h : b.StopsAt d e) :
    e.underName d.name = .generation d.name e ∨
      b.document.Overflow e ∧ e.underName d.name = .beyondDoubles := by
  have hname : d.name.IsText := by
    cases d with
    | resource r => exact hdef.name
    | dataSource s => exact hdef.name
  have htold : d.name.canBeTold = true := by
    obtain ⟨name, hname⟩ := hname
    rw [hname]
    rfl
  cases h with
  | unknownPlugin _ | lacking _ | filter _ _ _ | viewFilter _ => exact .inl (if_pos htold)
  | overflow h =>
    obtain ⟨rfl, -⟩ := id h
    exact .inr ⟨h, rfl⟩

/--
In a regular document with bounds within the doubles a resource fails where its plugin is unknown,
where it lacks a part, or where it has a filter that cannot be told, and a data source for the last
reason only. A run fails at the first definition that does, and leaves what those before it left.
-/
theorem failures_of_regular (hd : b.document.Regular) (hbounds : b.document.Bounded) :
    (∀ r : ResourceSettings, r.Typed → ∀ registry, b.ResourceFails r registry) ∧
      (∀ s : DataSourceSettings, s.Typed → ∀ registry, b.DataSourceFails s registry) ∧
      ((∀ d ∈ b.config.definitions, d.Typed) → ∀ registry registry' e,
        b.buildAll registry = (.error e, registry') ↔
          ∃ before d after models cause, b.config.definitions = before ++ d :: after ∧
            b.buildEach registry before = (.ok models, registry') ∧
            b.definition d registry' = (.error cause, registry') ∧
            e = .generation d.name cause) := by
  refine ⟨fun r hr => resource_fails hd hbounds hr, fun s hs => dataSource_fails hd hbounds hs, ?_⟩
  intro htyped registry registry' e
  have htold : ∀ before d after between cause,
      b.config.definitions = before ++ d :: after →
      b.definition d between = (.error cause, registry') →
      registry' = between ∧ cause.underName d.name = .generation d.name cause := by
    intro before d after between cause heq hfails
    have hdef : d.Typed := htyped d (by rw [heq]; simp)
    obtain ⟨hsame, hstop⟩ := stopsAt_of_definition hd hdef hfails
    exact ⟨hsame, (underName_of_stopsAt hdef hstop).resolve_right fun h => h.1.2 hbounds⟩
  rw [buildAll, buildEach_eq_error_iff]
  constructor
  · rintro ⟨before, d, after, models, between, cause, heq, hbefore, hfails, rfl⟩
    obtain ⟨rfl, hname⟩ := htold before d after between cause heq hfails
    exact ⟨before, d, after, models, cause, heq, hbefore, hfails, hname⟩
  · rintro ⟨before, d, after, models, cause, heq, hbefore, hfails, rfl⟩
    obtain ⟨-, hname⟩ := htold before d after registry' cause heq hfails
    exact ⟨before, d, after, models, registry', cause, heq, hbefore, hfails, hname.symm⟩

namespace Sample

theorem failures_of_regular_sample : (listing 0 untold).Regular ∧ (listing 0 untold).Bounded ∧
    machine.Typed ∧ (machineBuilder 0 untold).ResourceFails machine {} ∧
    ∃ e, (machineBuilder 0 untold).buildAll {} = (.error (.generation (.text "vm") e), {}) := by
  obtain ⟨hresource, -, hall⟩ := failures_of_regular (b := machineBuilder 0 untold)
    regular_listing bounded_untold
  have hfails := hresource machine machine_typed {}
  have herror := hfails.tooManyDigits.2 ⟨machine_known, machine_complete 0 untold, untoldFilter⟩
  refine ⟨regular_listing, bounded_untold, machine_typed, hfails, .tooManyDigits none, ?_⟩
  refine (hall machines_typed {} {} _).2 ⟨[], .resource machine, [], [], _, rfl, rfl, ?_, rfl⟩
  exact Prod.ext herror (hfails.unchanged _ herror)

/-- The machine cannot be built, although its plugin is known and it lacks nothing. -/
theorem machine_untold : (listing 0 untold).Regular ∧ (listing 0 untold).Bounded ∧
    ¬ machine.UnknownPlugin ∧ ¬ (machineBuilder 0 untold).Lacking machine ∧
    ((machineBuilder 0 untold).resource machine {}).1 = .error (.tooManyDigits none) := by
  have hfails := resource_fails (b := machineBuilder 0 untold) regular_listing
    bounded_untold machine_typed {}
  have hcomplete := machine_complete 0 untold
  exact ⟨regular_listing, bounded_untold, machine_known, hcomplete,
    hfails.tooManyDigits.2 ⟨machine_known, hcomplete, untoldFilter⟩⟩

end Sample

end Builder

end ApiModels
