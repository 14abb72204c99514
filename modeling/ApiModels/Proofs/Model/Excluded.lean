/-
ApiModels.Proofs.Model.Excluded — what a policy excludes is not in a model.

A walk leaves out the properties that the policy excludes
(`Extractor.extract_allowed`), and joins put fields together that stand at
one place and so under one path. What is there all the same was added by the
plugin or by the configuration, on the top level and under a name of its own
(`Structural`). Such a field is skipped unless creation accepts it, and no
other is. That is `excluded_fields`.
-/
import ApiModels.Proofs.Extract.Excluding
import ApiModels.Proofs.Model.Ascending
import ApiModels.Proofs.Model.Descriptions

namespace ApiModels

open ApiModels.Field (Everywhere Fits OccursAt Source Sourced names pathTo restate)

/-! ## What is extracted -/

/-- A walk gives no field that the policy excludes, on any level. -/
theorem Extractor.extract_allowed {x : Extractor} {node : Value} {fields : List Field}
    (h : x.extract node = .ok fields) :
    ∀ f steps, OccursAt f steps fields → x.policy.excludesAt steps f.name = false :=
  fun f steps hf => walkFrom_allowed h f steps hf

theorem Extractor.extract_unskipped {x : Extractor} {node : Value} {fields : List Field}
    (h : x.extract node = .ok fields) :
    ∀ f ∈ fields, Everywhere (fun f => f.schemaSkip = false) f := by
  refine extract_induction (G := fun _ _ fields =>
    ∀ f ∈ fields, Everywhere (fun f => f.schemaSkip = false) f) ?_ h
  intro nested path node fields inner hlevel f hf
  cases hlevel with
  | nothing => cases hf
  | fields _ _ made _ =>
    obtain ⟨name, v, -, hof⟩ := made f hf
    refine hof.everywhere ?_ ?_ fun path v fields _ hwalk => inner path v fields hwalk
    · cases hof with
      | leaf _ said => exact said.unskipped
      | items _ said => exact said.unskipped
      | object _ said => exact said.unskipped
    · intro i hi
      obtain ⟨_, _, _, _, _, -, -, -, rfl⟩ := hof.item_eq hi
      rfl

namespace Builder

variable {b : Builder} {d : Definition} {registry registry' : NameRegistry} {m : ResourceModel}

/-! ## Fields that the policy excludes -/

/-- A field that is excluded is on the top level, and was added. -/
def allowed (b : Builder) (d : Definition) (steps : List Field.Step) (name : Scalar) : Prop :=
  b.extractor.policy.excludesAt steps name = true → steps = [] ∧ d.Structural name

theorem allowed_of_extract {node : Value} {fields : List Field}
    (h : b.extractor.extract node = .ok fields) {f g : Field} (hf : f ∈ fields)
    {steps : List Field.Step} (hg : OccursAt g steps [f]) : b.allowed d steps g.name := by
  intro hexcluded
  have hat := hg.subset (List.cons_subset.2 ⟨hf, List.nil_subset _⟩)
  rw [Extractor.extract_allowed h g steps hat] at hexcluded
  cases hexcluded

theorem occursAt_leaf {info : FieldInfo} {g : Field} {steps : List Field.Step}
    (h : OccursAt g steps [.leaf info]) : steps = [] ∧ g = .leaf info := by
  cases steps with
  | nil => exact ⟨rfl, List.mem_singleton.1 (Field.occursAt_nil_iff.1 h)⟩
  | cons step steps =>
    obtain ⟨f, hf, -, hg⟩ := Field.occursAt_cons_iff.1 h
    rw [List.mem_singleton.1 hf] at hg
    cases step <;> exact absurd hg Field.not_occursAt_nil

theorem made_allowed (b : Builder) (d : Definition) :
    b.Made (fun _ => True) d.Structural fun f =>
      ∀ g steps, OccursAt g steps [f] → b.allowed d steps g.name where
  extracted := fun _ _ _ h _ hf _ _ hg => allowed_of_extract h hf hg
  plain := by
    intro info _ hname g steps hg _
    obtain ⟨rfl, rfl⟩ := occursAt_leaf hg
    exact ⟨rfl, hname⟩

theorem kept_allowed (b : Builder) (d : Definition) :
    b.Kept d (Sourced fun steps name _ => b.allowed d steps name) where
  extracted := fun _ _ _ h _ hf _ _ hg _ => allowed_of_extract h hf hg
  plain := fun _ _ hname => Field.sourced_leaf fun _ => ⟨rfl, hname⟩
  info := fun _ _ h heq => h.info heq
  join := fun _ _ => Sourced.join
  joinOrder := fun _ _ => Sourced.joinOrder

/-- What the model has at all places, names of structs aside, what is returned has. -/
theorem forall_outputs {P : List Field.Step → Field → Prop}
    (hP : ∀ steps f g, restate Field.withoutRef f = restate Field.withoutRef g →
      P steps f → P steps g)
    (hm : b.definition d registry = (.ok m, registry'))
    (hmodel : ∀ f steps, OccursAt f steps m.modelFields → P steps f) :
    ∀ fields ∈ [m.responseFields, m.modelFields], ∀ f steps, OccursAt f steps fields →
      P steps f := by
  have hreturned : ∀ f ∈ m.responseFields, ∃ g ∈ m.modelFields,
      restate Field.withoutRef f = restate Field.withoutRef g := by
    cases d with
    | resource settings =>
      obtain ⟨draft, hdraft, hcomes, -⟩ := resource_spec hm
      obtain ⟨s, hs⟩ := draft_spec hdraft
      exact hcomes.exists_modelField (s.response_subset hs)
    | dataSource settings =>
      obtain ⟨_, _, -, -, hcomes, -⟩ := dataSource_spec hm
      exact hcomes.exists_modelField fun _ => List.Subset.refl _
  rw [List.forall_mem_cons, List.forall_mem_singleton]
  refine ⟨fun f steps hf => ?_, hmodel⟩
  obtain ⟨f', hf', hat⟩ := hf.single
  obtain ⟨g', hg', hfg⟩ := hreturned f' hf'
  have hlists : [f'].map (restate Field.withoutRef) = [g'].map (restate Field.withoutRef) :=
    congrArg (fun t => [t]) hfg
  obtain ⟨g, hg, hgf⟩ := hat.restate_eq Field.keeps_withoutRef hlists
  exact hP steps g f hgf
    (hmodel g steps (hg.subset (List.cons_subset.2 ⟨hg', List.nil_subset _⟩)))

theorem allowed_modelFields (hm : b.definition d registry = (.ok m, registry')) {f : Field}
    {steps : List Field.Step} (hf : OccursAt f steps m.modelFields) : b.allowed d steps f.name := by
  have hplace := Field.textPlace_of_occursAt (textNames_of_definition hm) hf
  have hsourced : ∀ g ∈ m.modelFields, Sourced (fun steps name _ => b.allowed d steps name) g := by
    intro g hg
    obtain ⟨f, hf, heq⟩ := exists_described_of_definition (kept_allowed b d) hm g hg
    refine Sourced.mono ?_ (hf.describe.restate_eq keeps_wording (fun _ => rfl) heq)
    rintro steps name text ⟨old, hallowed, -⟩
    exact hallowed
  exact Sourced.of_occursAt hsourced hf hplace

/-- In no list of a model is a field that the policy excludes, unless it was added. -/
theorem allowed_fieldLists (hm : b.definition d registry = (.ok m, registry')) :
    ∀ fields ∈ m.fieldLists, ∀ f steps, OccursAt f steps fields → b.allowed d steps f.name := by
  have hinputs : ∀ fields ∈ [m.createFields, m.updateFields], ∀ f steps,
      OccursAt f steps fields → b.allowed d steps f.name := by
    intro fields hfields f steps hf
    obtain ⟨g, hg, hat⟩ := hf.single
    exact (made_allowed b d).inputs hm fields hfields g hg f steps hat
  have houtputs := forall_outputs (P := fun steps f => b.allowed d steps f.name)
    (fun steps f g heq hf => Field.keeps_withoutRef.name_eq heq ▸ hf) hm
    fun f steps => allowed_modelFields hm
  exact List.forall_mem_append.2 ⟨hinputs, houtputs⟩

/-! ## Fields that are skipped -/

theorem kept_unskipped (b : Builder) (d : Definition) :
    b.Kept d fun f => True ∧ Everywhere (fun f => f.Fits ∧ f.schemaSkip = false) f := by
  refine kept_of_joinable
    (Field.fits_joinable.and fun f g h hf _ hj => hj.schemaSkip.trans hf)
    (fun _ _ _ _ _ _ => trivial) (fun f hf => hf.1) ?_ ?_
  · intro node fields _ h f hf
    refine ⟨trivial, Everywhere.and ?_ (Extractor.extract_unskipped h f hf)⟩
    exact (Extractor.extract_shaped h f hf).imp fun g hg => hg.1.fits
  · exact fun info hinfo _ => ⟨trivial, hinfo.fits, hinfo.unskipped⟩

/-- Describing and settling fields skips none of them. -/
theorem unskipped_of_described {raw settled : List Field} {label : String}
    (hraw : ∀ f ∈ raw, Everywhere (fun f => f.schemaSkip = false) f)
    (hsettled : settled.map (restate Field.worded) =
      (Field.describeAll label raw).map (restate Field.worded)) :
    ∀ f ∈ settled, Everywhere (fun f => f.schemaSkip = false) f := by
  have hdescribed := Everywhere.forall_restate_eq (P := fun f => f.schemaSkip = false)
    (fun f g heq hf => (congrArg FieldInfo.schemaSkip (Field.info_restate_eq heq)).symm.trans hf)
    (Field.restate_describeAll label raw).symm hraw
  exact Everywhere.forall_restate_eq
    (fun f g heq hf => (congrArg FieldInfo.schemaSkip (Field.info_restate_eq heq)).symm.trans hf)
    hsettled.symm hdescribed

theorem schemaSkip_restate_eq {f g : Field}
    (h : restate Field.withoutRef f = restate Field.withoutRef g) :
    f.schemaSkip = g.schemaSkip ∧
      (f.item.any fun i => i.schemaSkip) = g.item.any fun i => i.schemaSkip := by
  have hskip := congrArg FieldInfo.schemaSkip (Field.info_restate_eq h)
  have hany := congrArg (Option.any fun i => i.schemaSkip) (Field.item_restate_eq h)
  refine ⟨by simpa [Field.withoutRef] using hskip, ?_⟩
  simpa [Option.any_map, Function.comp_def, Field.withoutRef] using hany

/-- In a model a field is skipped if it is excluded and is no input; an item schema never is. -/
theorem ComesOf.schemaSkip_eq {settled response : List Field} {policy : Policy}
    {inputs : List Scalar}
    (h : ComesOf (Field.skipExcludedAll policy inputs (.text "") (Field.sortByName settled))
      response registry registry' m)
    (hsettled : ∀ f ∈ settled, Everywhere (fun f => f.schemaSkip = false) f) {f : Field}
    {steps : List Field.Step} (hf : OccursAt f steps m.modelFields) :
    f.schemaSkip = (policy.excludesAt steps f.name && !f.name.isAmong inputs) ∧
      (f.item.any fun i => i.schemaSkip) = false := by
  obtain ⟨g, hg, hgf⟩ := hf.restate_eq Field.keeps_withoutRef h.restate_modelFields
  obtain ⟨c, hc, hinfo, hitem⟩ := Field.occursAt_skipExcludedAll hg
  have hclear := Everywhere.of_occursAt hsettled (hc.perm (Field.sortByName_perm settled))
  have hname : c.name = f.name :=
    (congrArg FieldInfo.name hinfo).symm.trans (Field.keeps_withoutRef.name_eq hgf)
  obtain ⟨hskip, hskips⟩ := schemaSkip_restate_eq hgf
  constructor
  · have hmarked := congrArg FieldInfo.schemaSkip hinfo
    rw [← hskip, hmarked, Field.skipInfo, hclear.here, Bool.false_or, hname]
    rfl
  · have hany := congrArg (Option.any FieldInfo.schemaSkip) hitem
    rw [Option.any_map, Option.any_map] at hany
    rw [← hskips, show (g.item.any fun i => i.schemaSkip) = _ from hany]
    cases hi : c.item with
    | none => rfl
    | some i => exact (hclear.item hi).here

/-- What is skipped in the model of a resource: fields that are excluded and not accepted. -/
theorem schemaSkip_of_resource {settings : ResourceSettings}
    (hm : b.resource settings registry = (.ok m, registry')) {f : Field}
    {steps : List Field.Step} (hf : OccursAt f steps m.modelFields) :
    (f.schemaSkip = true ↔ b.extractor.policy.excludesAt steps f.name = true ∧
      f.name ∉ names m.createFields) ∧ (f.item.any fun i => i.schemaSkip) = false := by
  obtain ⟨draft, hdraft, hcomes, hcreate, -⟩ := resource_spec hm
  obtain ⟨s, hs⟩ := draft_spec hdraft
  have htext := (Field.textPlace_of_occursAt
    (textNames_of_definition (d := .resource settings) hm) hf).name
  have hdemanded := s.demanded_of_kept (kept_unskipped b (.resource settings))
  have hsettled := unskipped_of_described
    (fun f hf => (hdemanded f hf).2.imp fun _ hg => hg.2) s.worded_settled
  rw [hs.modelFields, Drafting.marked] at hcomes
  obtain ⟨hskip, hitem⟩ := hcomes.schemaSkip_eq hsettled hf
  have hnames : f.name ∈ names m.createFields ↔ f.name ∈ names s.accepted := by
    rw [hcreate, hs.createFields]
    exact ((Field.sortByName_perm _).map _).mem_iff
  refine ⟨?_, hitem⟩
  rw [hskip, hnames, ← Scalar.isAmong_iff_of_isText htext]
  simp

theorem schemaSkip_of_dataSource {settings : DataSourceSettings}
    (hm : b.dataSource settings registry = (.ok m, registry')) {f : Field}
    {steps : List Field.Step} (hf : OccursAt f steps m.modelFields) :
    f.schemaSkip = b.extractor.policy.excludesAt steps f.name ∧
      (f.item.any fun i => i.schemaSkip) = false := by
  obtain ⟨raw, fields, hraw, rfl, hcomes, -⟩ := dataSource_spec hm
  have hfields := (kept_unskipped b (.dataSource settings)).dataSource hraw
  have hsettled := unskipped_of_described (fun f hf => (hfields f hf).2.imp fun _ hg => hg.2)
    (Field.restate_markDataSourceAll (Field.describeAll (Name.spaced m.name) raw))
  obtain ⟨hskip, hitem⟩ := hcomes.schemaSkip_eq hsettled hf
  exact ⟨by simpa [Scalar.isAmong] using hskip, hitem⟩

/-! ## Exclusion -/

/--
What the policy excludes is in no list of a resource, on no level, unless it is on the top level and
was added by the plugin or by the configuration. Just those of them are skipped that creation does
not accept, and no item schema is. A data source has nothing that is excluded and skips nothing.
-/
theorem excluded_fields (b : Builder) :
    (∀ settings registry m registry', b.resource settings registry = (.ok m, registry') →
      (∀ fields ∈ m.fieldLists, ∀ f steps, OccursAt f steps fields →
        b.extractor.policy.excludesAt steps f.name = true →
        steps = [] ∧ Structural settings f.name) ∧
      ∀ fields ∈ [m.responseFields, m.modelFields], ∀ f steps, OccursAt f steps fields →
        (f.schemaSkip = true ↔ (steps = [] ∧ Structural settings f.name ∧
          b.extractor.policy.excludesAt steps f.name = true) ∧ f.name ∉ names m.createFields) ∧
        (f.item.any fun i => i.schemaSkip) = false) ∧
    ∀ settings registry m registry', b.dataSource settings registry = (.ok m, registry') →
      ∀ fields ∈ m.fieldLists, ∀ f steps, OccursAt f steps fields →
        b.extractor.policy.excludesAt steps f.name = false ∧ f.schemaSkip = false ∧
        (f.item.any fun i => i.schemaSkip) = false := by
  refine ⟨fun settings registry m registry' h => ?_, fun settings registry m registry' h => ?_⟩
  · have hm : b.definition (.resource settings) registry = (.ok m, registry') := h
    refine ⟨allowed_fieldLists hm, forall_outputs (fun steps f g heq hf => ?_) hm ?_⟩
    · obtain ⟨hskip, hskips⟩ := schemaSkip_restate_eq heq
      rwa [← hskip, ← hskips, ← Field.keeps_withoutRef.name_eq heq]
    · intro f steps hf
      obtain ⟨hskip, hitem⟩ := schemaSkip_of_resource h hf
      refine ⟨hskip.trans (and_congr_left' ⟨fun hexcluded => ?_, fun h => h.2.2⟩), hitem⟩
      obtain ⟨hsteps, hname⟩ := allowed_modelFields hm hf hexcluded
      exact ⟨hsteps, hname, hexcluded⟩
  · have hm : b.definition (.dataSource settings) registry = (.ok m, registry') := h
    have houtputs := forall_outputs (P := fun steps f =>
        b.extractor.policy.excludesAt steps f.name = false ∧ f.schemaSkip = false ∧
        (f.item.any fun i => i.schemaSkip) = false) (fun steps f g heq hf => ?_) hm ?_
    · obtain ⟨_, _, -, -, -, -, hcreate, hupdate⟩ := dataSource_spec h
      intro fields hfields
      rw [ResourceModel.fieldLists, hcreate, hupdate, List.mem_cons, List.mem_cons] at hfields
      rcases hfields with rfl | rfl | hfields
      · exact fun f steps hf => absurd hf Field.not_occursAt_nil
      · exact fun f steps hf => absurd hf Field.not_occursAt_nil
      · exact houtputs fields hfields
    · obtain ⟨hskip, hskips⟩ := schemaSkip_restate_eq heq
      rwa [← hskip, ← hskips, ← Field.keeps_withoutRef.name_eq heq]
    · intro f steps hf
      obtain ⟨hskip, hitem⟩ := schemaSkip_of_dataSource h hf
      have hallowed : b.extractor.policy.excludesAt steps f.name = false :=
        Bool.eq_false_iff.2 fun hexcluded => (allowed_modelFields hm hf hexcluded).2
      exact ⟨hallowed, hskip.trans hallowed, hitem⟩

/-! ## A volume whose policy excludes what it is ordered with

The policy excludes the parameter of the termination, which the order has all the same, and the name
of the owner, which is not returned.
-/

namespace Sample

def excludingBuilder : Builder :=
  { volumeBuilder with
    extractor :=
      { document := volumeDocument
        policy := { excluded := [.text "force", .text "owner.name"] } } }

end Sample

theorem excluded_fields_sample :
    ∃ m registry, Sample.excludingBuilder.resource Sample.volumeSettings {} = (.ok m, registry) ∧
      Sample.excludingBuilder.extractor.policy.excludesAt [.object (.text "owner")]
        (.text "name") = true ∧
      (∃ f ∈ m.modelFields, f.name = .text "force" ∧ f.schemaSkip = true ∧
        Structural Sample.volumeSettings f.name ∧ f.name ∉ names m.createFields) ∧
      ∀ fields ∈ m.fieldLists, ∀ f, ¬ OccursAt f [.object (.text "owner")] fields ∨
        f.name ≠ .text "name" := by
  obtain ⟨m, registry, h, hm⟩ := Sample.exists_of_any
    (x := Sample.excludingBuilder.resource Sample.volumeSettings {})
    (p := fun m => m.modelFields.any fun f => decide (f.name = .text "force") && f.schemaSkip)
    (by decide +kernel)
  obtain ⟨f, hf, hsaid⟩ := List.any_eq_true.1 hm
  obtain ⟨hname, hskip⟩ := Bool.and_eq_true_iff.1 hsaid
  have hexcluded : Sample.excludingBuilder.extractor.policy.excludesAt
      [.object (.text "owner")] (.text "name") = true := by decide +kernel
  obtain ⟨hallowed, hskips⟩ := (excluded_fields Sample.excludingBuilder).1 _ _ m registry h
  obtain ⟨⟨-, hstructural, -⟩, hrefused⟩ :=
    (hskips m.modelFields (.tail _ (.head _)) f [] (.here hf)).1.1 hskip
  refine ⟨m, registry, h, hexcluded,
    ⟨f, hf, of_decide_eq_true hname, hskip, hstructural, hrefused⟩, fun fields hfields g => ?_⟩
  by_cases hg : g.name = .text "name"
  · refine .inl fun hat => ?_
    obtain ⟨hsteps, -⟩ := hallowed fields hfields g _ hat (hg ▸ hexcluded)
    cases hsteps
  · exact .inr hg

end Builder

end ApiModels
