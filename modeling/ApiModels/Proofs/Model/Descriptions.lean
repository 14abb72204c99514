/-
ApiModels.Proofs.Model.Descriptions — how often the descriptions in a model
are escaped.

A description is escaped when it is read, and once more when fields and
filters are described. So of what a document states a model shows the
escaped form exactly where there is nothing to escape
(`description_eq_escape_iff`), whatever it is the description of: a field on
any level or a filter, of a resource or of a data source. With a quotation
mark in it, it is escaped twice (`description_escaped_twice`).

Only a list that belongs to no named resource has filters that are escaped
once: these are not described.
-/
import ApiModels.Proofs.Extract.Stated
import ApiModels.Proofs.Model.Lists
import ApiModels.Proofs.Model.Run
import ApiModels.Proofs.Text.Escape

namespace ApiModels

/-- The operation whose parameters filter what a definition lists. -/
def Definition.listId : Definition → Value
  | .resource r => ResourceSettings.derivedId r.baseOperationId "list"
  | .dataSource s => ResourceSettings.derivedId s.baseOperationId "list"

namespace Builder

open ApiModels.Field (Everywhere Fits OccursAt Source Sourced TextNames restate)

variable {b : Builder} {d : Definition}

/-! ## Sources of descriptions -/

/-- A description is one that a schema of the definition states, escaped, or one of our own. -/
def stated (b : Builder) (d : Definition) : Source := fun steps name description =>
  (∃ node, b.ReadFrom d node ∧ b.extractor.stated node steps name description) ∨
    (steps = [] ∧ description ∈ ownDescriptions)

theorem kept_stated (b : Builder) (d : Definition) : b.Kept d (Sourced (b.stated d)) where
  extracted := fun node _ hnode h f hf =>
    (Extractor.extract_stated h f hf).mono fun _ _ _ hstated => .inl ⟨node, hnode, hstated⟩
  plain := fun _ hinfo _ => Field.sourced_leaf (.inr ⟨rfl, hinfo.description⟩)
  info := fun _ _ h heq => h.info heq
  join := fun _ _ => Sourced.join
  joinOrder := fun _ _ => Sourced.joinOrder

/-- Our own descriptions are long enough, and nothing in them has to be escaped. -/
theorem ofField_ownDescription {text : String} (h : text ∈ ownDescriptions)
    (name resource : String) : Description.ofField name resource text = text := by
  have hown : ∀ text ∈ ownDescriptions, Description.escape text = text ∧
      Description.leastLength ≤ (Description.escape text).length := by
    decide +kernel
  obtain ⟨hescape, henough⟩ := hown text h
  have hagain := Description.ofField_escape name resource henough
  rwa [hescape, hescape] at hagain

/-! ## Models -/

variable {registry registry' : NameRegistry} {m : ResourceModel}

theorem filters_of_definition (h : b.definition d registry = (.ok m, registry')) :
    Filter.ofOperation b.document d.listId (Name.spaced m.name) = .ok m.filters := by
  cases d with
  | resource settings =>
    obtain ⟨draft, hdraft, -, hfinishes⟩ := resource_eq_ok h
    obtain ⟨s, -⟩ := draft_spec hdraft
    rw [hfinishes.name, hfinishes.filters]
    exact s.filters_eq
  | dataSource settings =>
    obtain ⟨_, _, -, -, -, hfilters, -⟩ := dataSource_spec h
    exact hfilters

/-- All names in a model are texts. -/
theorem textNames_of_definition (h : b.definition d registry = (.ok m, registry')) :
    ∀ g ∈ m.modelFields, TextNames g :=
  textNames_outputs h m.modelFields (.tail _ (.head _))

/-- Every description in a model is made of one that its source states for its place. -/
theorem sourced_of_definition (h : b.definition d registry = (.ok m, registry')) :
    ∀ g ∈ m.modelFields, Sourced (fun steps name description => ∃ old,
      b.stated d steps name old ∧
      description = Description.ofField name.display (Name.spaced m.name) old) g := by
  intro g hg
  obtain ⟨f, hf, heq⟩ := exists_described_of_definition (kept_stated b d) h g hg
  exact hf.describe.restate_eq keeps_wording (fun _ => rfl) heq

/--
What a model shows of a description in the document is the text escaped once exactly if nothing in
the text has to be escaped, enough of it to be kept given. Fields that the document does not
describe have one of our own descriptions, and filters are described only for a named resource.
-/
theorem description_eq_escape_iff (h : b.definition d registry = (.ok m, registry')) :
    (∀ g steps, OccursAt g steps m.modelFields →
      (∃ node text, b.ReadFrom d node ∧ b.document.States node steps g.name text ∧
        Description.ReadAs g.name.display (Name.spaced m.name) text g.description) ∨
      (steps = [] ∧ g.description ∈ ownDescriptions)) ∧
    (∀ f ∈ m.filters, ∃ text, b.document.ParameterStates d.listId f.name text ∧
      (Name.spaced m.name = "" → f.description = Description.escape text) ∧
      (Name.spaced m.name ≠ "" →
        Description.ReadAs f.name.display (Name.spaced m.name) text f.description)) ∧
    ∀ name resource text, Description.leastLength ≤ (Description.escape text).length →
      (Description.ofField name resource (Description.escape text) = Description.escape text ↔
        Description.Simple text) := by
  refine ⟨fun g steps hg => ?_, fun f hf => ?_, fun name resource text =>
    (Description.readAs_ofField name resource text).once_iff⟩
  · have hplace := Field.textPlace_of_occursAt (textNames_of_definition h) hg
    obtain ⟨old, hstated, hdescription⟩ :=
      Sourced.of_occursAt (sourced_of_definition h) hg hplace
    rcases hstated with ⟨node, hnode, text, htext, rfl⟩ | ⟨hsteps, hown⟩
    · refine .inl ⟨node, text, hnode, htext, ?_⟩
      exact hdescription ▸ Description.readAs_ofField _ _ _
    · rw [ofField_ownDescription hown] at hdescription
      exact .inr ⟨hsteps, hdescription ▸ hown⟩
  · obtain ⟨text, htext, hunnamed, hnamed⟩ :=
      Filter.ofOperation_spec (filters_of_definition h) f hf
    exact ⟨text, htext, hunnamed, fun hne => hnamed hne ▸ Description.readAs_ofField _ _ _⟩

/-! ## A description with quotation marks

Disks are returned with machines, and machines are listed by their disks.
-/

namespace Sample

def mainDisk : String := "the \"main\" disk"

def diskNode : Value :=
  .record [("type", .text "string"), ("description", .text mainDisk)]

def diskDocument : Document where
  root := []
  operations :=
    [⟨.text "vm_retrieve", .text "/vms/1/", "GET",
       [(.text "responses",
         .record [("200", json (.record [("properties", .record [("disk", diskNode)])]))])], []⟩,
     ⟨.text "vm_list", .text "/vms/", "GET",
       [(.text "parameters", .list [.record [("name", .text "disk"), ("in", .text "query"),
         ("schema", textNode), ("description", .text mainDisk)]])], []⟩]

def diskBuilder : Builder := { builder with extractor := { document := diskDocument } }

theorem disk_ok :
    ∃ m registry, diskBuilder.definition (.resource settings) {} = (.ok m, registry) :=
  exists_of_isOk (by decide +kernel)

end Sample

theorem description_eq_escape_iff_sample :
    ∃ m registry,
      Sample.diskBuilder.definition (.resource Sample.settings) {} = (.ok m, registry) ∧
      (∀ g steps, OccursAt g steps m.modelFields →
        (∃ node text, Sample.diskBuilder.ReadFrom (.resource Sample.settings) node ∧
          Sample.diskDocument.States node steps g.name text ∧
          Description.ReadAs g.name.display (Name.spaced m.name) text g.description) ∨
        (steps = [] ∧ g.description ∈ ownDescriptions)) ∧
      ∀ f ∈ m.filters, ∃ text, Sample.diskDocument.ParameterStates (.text "vm_list") f.name text ∧
        (Name.spaced m.name ≠ "" →
          Description.ReadAs f.name.display (Name.spaced m.name) text f.description) := by
  obtain ⟨m, registry, h⟩ := Sample.disk_ok
  obtain ⟨hfields, hfilters, -⟩ := description_eq_escape_iff h
  refine ⟨m, registry, h, hfields, fun f hf => ?_⟩
  obtain ⟨text, htext, -, hnamed⟩ := hfilters f hf
  exact ⟨text, htext, hnamed⟩

/-- A quotation mark is escaped, and then the backslash that was put before it. -/
theorem description_escaped_twice :
    Description.escape Sample.mainDisk = "the \\\"main\\\" disk" ∧
      ∃ m registry,
        Sample.diskBuilder.definition (.resource Sample.settings) {} = (.ok m, registry) ∧
        (∃ g ∈ m.modelFields, g.name = .text "disk" ∧
          g.description = "the \\\\\\\"main\\\\\\\" disk") ∧
        ∃ f ∈ m.filters, f.name = .text "disk" ∧
          f.description = "the \\\\\\\"main\\\\\\\" disk" := by
  refine ⟨by decide +kernel, ?_⟩
  obtain ⟨m, registry, h, hm⟩ := Sample.exists_of_any
    (x := Sample.diskBuilder.definition (.resource Sample.settings) {})
    (p := fun m =>
      (m.modelFields.any fun g => decide (g.name = .text "disk") &&
        g.description == "the \\\\\\\"main\\\\\\\" disk") &&
      m.filters.any fun f => decide (f.name = .text "disk") &&
        f.description == "the \\\\\\\"main\\\\\\\" disk")
    (by decide +kernel)
  simp only [Bool.and_eq_true, List.any_eq_true, decide_eq_true_eq, beq_iff_eq] at hm
  exact ⟨m, registry, h, hm⟩

end Builder

end ApiModels
