/-
ApiModels.Proofs.Model.Escaping — what a run of a valid configuration ends
with.

A valid configuration names plugins that exist, so a definition of it fails
at a missing part or at a value that cannot be told, and the run tells either
under the name of the definition. One failure is told as it is: a bound
beyond the doubles, wherever in the document it is read
(`outcome_of_validate`).
-/
import ApiModels.Config.Check
import ApiModels.Proofs.Model.Failing

namespace ApiModels

/-! ## Valid configurations -/

/-- What passes a check beside others passes it beside some of them. -/
theorem exists_of_validateEach {α : Type} {validate : List Scalar → α → Result Scalar}
    {as : List α} : ∀ {seen : List Scalar}, validateEach validate seen as = .ok () →
      ∀ a ∈ as, ∃ before name, validate before a = .ok name := by
  induction as with
  | nil => exact fun _ => nofun
  | cons a rest ih =>
    intro seen h
    rw [validateEach, Result.bind_eq_ok] at h
    obtain ⟨name, hname, hrest⟩ := h
    exact List.forall_mem_cons.2 ⟨⟨seen, name, hname⟩, ih hrest⟩

/-- The plugin of a valid resource is set, and there is one of its name. -/
theorem ResourceSettings.plugin_of_validate {r : ResourceSettings} {seen : List Scalar}
    {name : Scalar} (h : r.validate seen = .ok name) :
    ∃ plugin : Plugin, r.plugin = .text plugin.name := by
  have hnamed : ConfigProblem.plugins.any (fun p => Config.isNamed p r.plugin) = true := by
    unfold validate at h
    split at h
    · cases h
    split at h
    · cases h
    rw [Result.bind_eq_ok] at h
    obtain ⟨key, -, h⟩ := h
    split at h
    · cases h
    split at h
    · cases h
    · simp_all
  have hplugins : ∀ p ∈ ConfigProblem.plugins, ∃ plugin : Plugin, plugin.name = p := by
    simp only [ConfigProblem.plugins, List.forall_mem_cons]
    exact ⟨⟨.standard, rfl⟩, ⟨.order, rfl⟩, ⟨.link, rfl⟩, List.forall_mem_nil _⟩
  obtain ⟨p, hp, hisNamed⟩ := List.any_eq_true.1 hnamed
  obtain ⟨plugin, rfl⟩ := hplugins p hp
  exact ⟨plugin, Value.eq_text_of_text? (beq_iff_eq.1 hisNamed)⟩

theorem Config.plugin_of_validate {c : Config} (h : c.validate = .ok ()) :
    ∀ r ∈ c.resources, ∃ plugin : Plugin, r.plugin = .text plugin.name := by
  have hresources : validateEach ResourceSettings.validate [] c.resources = .ok () := by
    unfold validate at h
    split at h
    · cases h
    split at h
    · cases h
    split at h
    · cases h
    · obtain ⟨_, hresources, -⟩ := Result.bind_eq_ok.1 h
      exact hresources
  intro r hr
  obtain ⟨before, name, hname⟩ := exists_of_validateEach hresources r hr
  exact ResourceSettings.plugin_of_validate hname

theorem Config.known_of_validate {c : Config} (h : c.validate = .ok ()) :
    ∀ r ∈ c.resources, ¬ r.UnknownPlugin := by
  rintro r hr ⟨-, hunknown⟩
  obtain ⟨plugin, hplugin⟩ := plugin_of_validate h r hr
  exact hunknown plugin hplugin

namespace Builder

variable {b : Builder}

theorem mem_resources {c : Config} {r : ResourceSettings}
    (h : .resource r ∈ c.definitions) : r ∈ c.resources := by
  simpa [Config.definitions] using h

theorem ofConfig_eq_ok {c : Config} {d : Document} (h : ofConfig c d = .ok b) :
    b.config = c ∧ b.document = d := by
  simp only [ofConfig, Result.bind_eq_ok] at h
  obtain ⟨policy, -, key, -, identifier, -, h⟩ := h
  cases h
  exact ⟨rfl, rfl⟩

/-! ## Runs -/

/-- What a run of a valid configuration ends with. -/
inductive Outcome (b : Builder) (registry : NameRegistry) : Prop where
  /-- All models were built. -/
  | built {models registry'} (h : b.buildAll registry = (.ok models, registry'))
  /-- A definition failed, and the run says which one it was. -/
  | told {before d after models registry' cause}
      (hdefinitions : b.config.definitions = before ++ d :: after)
      (hbefore : b.buildEach registry before = (.ok models, registry'))
      (hfails : b.definition d registry' = (.error cause, registry'))
      (hcause : (∃ part, cause = .missing part) ∨ cause = .tooManyDigits none)
      (h : b.buildAll registry = (.error (.generation d.name cause), registry'))
  /-- A definition failed at a bound beyond the doubles, and the run does not say which one. -/
  | escaped {before d after models registry'}
      (hdefinitions : b.config.definitions = before ++ d :: after)
      (hbefore : b.buildEach registry before = (.ok models, registry'))
      (hfails : b.definition d registry' = (.error .beyondDoubles, registry'))
      (hbounds : ¬ b.document.Bounded)
      (h : b.buildAll registry = (.error .beyondDoubles, registry'))

/--
A run of a valid configuration on a regular document gives all models, or the first failure under
the name of its definition, unless that is a bound beyond the doubles: it is told as it is.
-/
theorem outcome_of_validate {c : Config} {d : Document} (hvalid : c.validate = .ok ())
    (hb : ofConfig c d = .ok b) (hd : d.Regular)
    (htyped : ∀ definition ∈ c.definitions, definition.Typed) (registry : NameRegistry) :
    b.Outcome registry := by
  obtain ⟨rfl, rfl⟩ := ofConfig_eq_ok hb
  cases hrun : b.buildAll registry with
  | mk result registry' =>
    cases result with
    | ok models => exact .built hrun
    | error e =>
      obtain ⟨before, definition, after, models, between, cause, heq, hbefore, hfails, rfl⟩ :=
        buildEach_eq_error_iff.1 hrun
      have hmem : definition ∈ b.config.definitions := by rw [heq]; simp
      have hdef := htyped definition hmem
      obtain ⟨rfl, hstop⟩ := stopsAt_of_definition hd hdef hfails
      rcases underName_of_stopsAt hdef hstop with hname | ⟨hoverflow, hname⟩
      · rw [hname] at hrun
        refine .told heq hbefore hfails ?_ hrun
        cases hstop with
        | unknownPlugin h =>
          exact absurd h (Config.known_of_validate hvalid _ (mem_resources hmem))
        | lacking _ => exact .inl ⟨_, rfl⟩
        | filter _ _ _ | viewFilter _ => exact .inr rfl
        | overflow h =>
          obtain ⟨rfl, -⟩ := h
          cases hname
      · obtain ⟨rfl, hbounds⟩ := hoverflow
        rw [hname] at hrun
        exact .escaped heq hbefore hfails hbounds hrun

namespace Sample

theorem validate_machines : machines.validate = .ok () := rfl

theorem outcome_of_validate_sample : machines.validate = .ok () ∧
    ofConfig machines (listing 0 untold) = .ok (machineBuilder 0 untold) ∧
    (listing 0 untold).Regular ∧ (∀ d ∈ machines.definitions, d.Typed) ∧
    ∃ d ∈ machines.definitions, ∃ cause registry, (machineBuilder 0 untold).buildAll {} =
      (.error (.generation d.name cause), registry) := by
  refine ⟨validate_machines, ofConfig_machines, regular_listing, machines_typed, ?_⟩
  have houtcome := outcome_of_validate (b := machineBuilder 0 untold) validate_machines
    ofConfig_machines regular_listing machines_typed {}
  have hfails : ((machineBuilder 0 untold).buildAll {}).1.isOk = false := by decide +kernel
  cases houtcome with
  | built h =>
    rw [h] at hfails
    cases hfails
  | told heq _ _ _ h => exact ⟨_, heq ▸ List.mem_append_right _ List.mem_cons_self, _, _, h⟩
  | escaped _ _ _ hbounds _ => exact absurd bounded_untold hbounds

/-- A result is the failure at a bound that is beyond the doubles. -/
def overflows {α : Type} : Result α → Bool
  | .error .beyondDoubles => true
  | _ => false

theorem eq_error_of_overflows {α : Type} {x : Result α} (h : overflows x = true) :
    x = .error .beyondDoubles := by
  unfold overflows at h
  split at h
  · rfl
  · cases h

/-- A whole number that is beyond the doubles. -/
def huge : Int := .ofNat (Nat.pow 10 400)

/-- A machine cannot be built whose bound is beyond the doubles, and the run does not say so. -/
theorem overflow_escapes : machines.validate = .ok () ∧
    ofConfig machines (listing huge .null) = .ok (machineBuilder huge .null) ∧
    (listing huge .null).Regular ∧ (∀ d ∈ machines.definitions, d.Typed) ∧
    ((machineBuilder huge .null).buildAll {}).1 = .error .beyondDoubles := by
  refine ⟨validate_machines, ofConfig_machines, regular_listing, machines_typed, ?_⟩
  exact eq_error_of_overflows (by decide +kernel)

end Sample

end Builder

end ApiModels
