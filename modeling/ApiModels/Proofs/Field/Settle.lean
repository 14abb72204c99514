/-
ApiModels.Proofs.Field.Settle — what is settled against the create input.

A field of a settled tree is one of the tree before, settled against the
field that stands at the same place of the input (`occursAt_settleAll`).
What settling says of a field never contradicts itself (`Coherent`), and a
field is required only if the input has one at its place.

A field of the input is looked up as the last one of its name. Where no
name stands twice that is the one that `at?` finds (`atLast?_eq_at?`).
-/
import ApiModels.Proofs.Field.Status

namespace ApiModels

namespace Field

/-! ## The input at a place -/

/-- The field at the end of some steps that is the last of its name, as are those on the way. -/
def atLast? : List Field → List Step → Scalar → Option Field
  | fields, [], name => findLast? fields name
  | fields, step :: steps, name =>
    (findLast? fields step.name).bind fun f => atLast? (step.inside f) steps name

theorem atLast?_nil (steps : List Step) (name : Scalar) : atLast? [] steps name = none := by
  cases steps <;> rfl

/-- The place at the end of some steps, and all places on the way, are named by texts. -/
structure TextPlace (steps : List Step) (name : Scalar) : Prop where
  steps : ∀ step ∈ steps, step.name.isText = true
  name : name.isText = true

theorem TextPlace.tail {step : Step} {steps : List Step} {name : Scalar}
    (h : TextPlace (step :: steps) name) : TextPlace steps name :=
  ⟨fun s hs => h.steps s (List.mem_cons_of_mem _ hs), h.name⟩

theorem TextPlace.head {step : Step} {steps : List Step} {name : Scalar}
    (h : TextPlace (step :: steps) name) : ∃ s, step.name = .text s :=
  Scalar.isText_iff.1 (h.steps step List.mem_cons_self)

theorem findLast?_text_some {fields : List Field} {s : String} {f : Field}
    (h : findLast? fields (.text s) = some f) : f ∈ fields ∧ f.name = .text s := by
  obtain ⟨hf, hname⟩ := find?_text_some h
  exact ⟨List.mem_reverse.1 hf, hname⟩

/-- What the input has at a place that is named by texts stands there under the same names. -/
theorem occursAt_of_atLast? {steps : List Step} {name : Scalar} {c : Field} :
    ∀ {fields : List Field}, TextPlace steps name → atLast? fields steps name = some c →
      OccursAt c steps fields ∧ c.name = name := by
  induction steps with
  | nil =>
    intro fields htext h
    obtain ⟨s, rfl⟩ := Scalar.isText_iff.1 htext.name
    obtain ⟨hc, hname⟩ := findLast?_text_some h
    exact ⟨.here hc, hname⟩
  | cons step steps ih =>
    intro fields htext h
    obtain ⟨f, hf, hc⟩ := Option.bind_eq_some_iff.1 h
    obtain ⟨s, hs⟩ := htext.head
    rw [hs] at hf
    obtain ⟨hmem, hname⟩ := findLast?_text_some hf
    obtain ⟨hoccurs, hcname⟩ := ih htext.tail hc
    exact ⟨occursAt_cons_iff.2 ⟨f, hmem, hname.trans hs.symm, hoccurs⟩, hcname⟩

/-! ## One field -/

theorem settle_name (create : Option Field) (f : Field) : (settle create f).name = f.name :=
  keeps_worded.name_eq (restate_settle create f)

theorem settleAll_eq (accepted fields : List Field) :
    settleAll accepted fields = fields.map fun f => settle (findLast? accepted f.name) f := by
  induction fields with
  | nil => rfl
  | cons f fs ih => rw [settleAll, ih, List.map_cons]

/-- Where parts fit, a field is settled with all its parts: it has items or properties, not both. -/
theorem settle_eq {f : Field} (hf : f.Fits) (create : Option Field) :
    settle create f =
      { toFieldInfo := settleInfo create.isSome f.toFieldInfo
        item := settleItem create f.item
        properties := settleAll ((create.map Field.properties).getD []) f.properties } := by
  obtain ⟨info, item, properties⟩ := f
  cases properties with
  | nil =>
    simp only [settle]
    split
    · rfl
    · rename_i hkind
      have hitem : item = none := hf.item_eq_none (by simpa using hkind)
      rw [hitem]
      rfl
  | cons g gs =>
    have hkind := hf.properties_object (List.cons_ne_nil g gs)
    have hitem : item = none := hf.item_eq_none (by rw [hkind]; rfl)
    rw [hitem]
    cases create <;> rfl

theorem settle_info {f : Field} (hf : f.Fits) (create : Option Field) :
    (settle create f).toFieldInfo = settleInfo create.isSome f.toFieldInfo := by
  rw [settle_eq hf]

theorem settle_inside {f : Field} (hf : f.Fits) (create : Option Field) (step : Step) :
    step.inside (settle create f) =
      settleAll ((create.map step.inside).getD []) (step.inside f) := by
  rw [settle_eq hf]
  cases step with
  | object n => rfl
  | items n =>
    obtain ⟨info, item, properties⟩ := f
    cases item with
    | none => rfl
    | some i =>
      obtain ⟨_, _, _⟩ := i
      cases create <;> rfl

/-! ## All fields -/

/-- What occurs in a settled tree was settled against what the input has at that place. -/
theorem occursAt_settleAll {d : Field} {steps : List Step} :
    ∀ {accepted fields : List Field}, (∀ f ∈ fields, Everywhere Fits f) →
      OccursAt d steps (settleAll accepted fields) →
      ∃ g, OccursAt g steps fields ∧ d = settle (atLast? accepted steps d.name) g := by
  induction steps with
  | nil =>
    intro accepted fields _ h
    rw [occursAt_nil_iff, settleAll_eq] at h
    obtain ⟨g, hg, rfl⟩ := List.mem_map.1 h
    refine ⟨g, .here hg, ?_⟩
    rw [settle_name]
    rfl
  | cons step steps ih =>
    intro accepted fields hfits h
    rw [settleAll_eq] at h
    obtain ⟨f, hf, hname, h⟩ := occursAt_cons_iff.1 h
    obtain ⟨g, hg, rfl⟩ := List.mem_map.1 hf
    rw [settle_name] at hname
    rw [settle_inside (hfits g hg).here, hname] at h
    obtain ⟨d', hd', hd⟩ := ih ((hfits g hg).inside step) h
    refine ⟨d', occursAt_cons_iff.2 ⟨g, hg, hname, hd'⟩, ?_⟩
    rw [atLast?]
    cases hfound : findLast? accepted step.name with
    | none => rwa [hfound, Option.map_none, Option.getD_none, atLast?_nil] at hd
    | some c => rwa [hfound, Option.map_some, Option.getD_some] at hd

/-! ## What is said of a settled field -/

/-- What is said of who fills a field in does not contradict itself. -/
structure Coherent (f : FieldInfo) : Prop where
  readOnly : f.readOnly = true → f.serverComputed = true
  serverComputed : f.serverComputed = true → f.required = false ∧ f.useStateForUnknown = true

theorem Coherent.required {f : FieldInfo} (h : Coherent f) (hf : f.required = true) :
    f.readOnly = false ∧ f.serverComputed = false := by
  have hserver : f.serverComputed = false := by
    cases hcomputed : f.serverComputed with
    | false => rfl
    | true => simp [(h.serverComputed hcomputed).1] at hf
  refine ⟨?_, hserver⟩
  cases hread : f.readOnly with
  | false => rfl
  | true => simp [h.readOnly hread] at hserver

theorem settleInfo_coherent (accepted : Bool) (f : FieldInfo) :
    Coherent (settleInfo accepted f) := by
  constructor
  · intro h
    simp only [settleInfo] at h ⊢
    simp [h]
  · intro h
    simp only [settleInfo] at h ⊢
    simp [h]

theorem accepted_of_required {accepted : Bool} {f : FieldInfo}
    (h : (settleInfo accepted f).required = true) : accepted = true := by
  simp only [settleInfo, Bool.and_eq_true, Bool.not_eq_true', Bool.or_eq_false_iff] at h
  simpa using h.2.2

/-- The item schema of a field says nothing of who fills it in. -/
def IdleItem (f : Field) : Prop := ∀ i, f.item = some i →
  i.readOnly = false ∧ i.serverComputed = false ∧ i.required = false

theorem idleItem_joinable : Joinable IdleItem := by
  intro f g h hf _ hj i hi
  obtain ⟨j, hitem, hinfo⟩ := hj.item_eq hi
  rw [hinfo]
  exact hf j hitem

theorem IdleItem.restate_eq {f g : Field} (heq : restate silent f = restate silent g)
    (h : f.IdleItem) : g.IdleItem := by
  intro i hi
  have hitems := item_restate_eq heq
  rw [hi, Option.map_some] at hitems
  obtain ⟨j, hj, hji⟩ := Option.map_eq_some_iff.1 hitems
  have hinfo := info_restate_eq hji
  obtain ⟨hread, hcomputed, hrequired⟩ := h j hj
  refine ⟨?_, ?_, ?_⟩
  · exact (congrArg FieldInfo.readOnly hinfo).symm.trans hread
  · exact (congrArg FieldInfo.serverComputed hinfo).symm.trans hcomputed
  · exact (congrArg FieldInfo.required hinfo).symm.trans hrequired

theorem settleItem_info {create item : Option Field} {i : Field}
    (h : settleItem create item = some i) :
    ∃ j, item = some j ∧ i.toFieldInfo = j.toFieldInfo := by
  cases item with
  | none => cases h
  | some j =>
    obtain ⟨info, inner, properties⟩ := j
    cases h
    exact ⟨_, rfl, rfl⟩

/-- Nothing in a settled tree contradicts itself. -/
theorem coherent_settleAll {accepted fields : List Field}
    (hfields : ∀ f ∈ fields, Everywhere (fun f => f.Fits ∧ f.IdleItem) f) {d : Field}
    (h : Describes d (settleAll accepted fields)) : Coherent d.toFieldInfo := by
  have hfits : ∀ f ∈ fields, Everywhere Fits f := fun f hf => (hfields f hf).imp fun _ h => h.1
  rcases h with ⟨steps, hd⟩ | ⟨steps, f, hf, hitem⟩
  · obtain ⟨g, hg, hsettled⟩ := occursAt_settleAll hfits hd
    rw [hsettled, settle_info (Everywhere.of_occursAt hfits hg).here]
    exact settleInfo_coherent _ _
  · obtain ⟨g, hg, hsettled⟩ := occursAt_settleAll hfits hf
    obtain ⟨hfits', hidle⟩ := (Everywhere.of_occursAt hfields hg).here
    rw [hsettled, settle_eq hfits'] at hitem
    obtain ⟨j, hj, hinfo⟩ := settleItem_info hitem
    obtain ⟨hread, hcomputed, -⟩ := hidle j hj
    rw [hinfo]
    exact ⟨fun h => by simp [hread] at h, fun h => by simp [hcomputed] at h⟩

/-- A field that is required after settling stands at its place in the input. -/
theorem accepted_settleAll {accepted fields : List Field}
    (hfits : ∀ f ∈ fields, Everywhere Fits f) {d : Field} {steps : List Step}
    (h : OccursAt d steps (settleAll accepted fields)) (htext : TextPlace steps d.name)
    (hrequired : d.required = true) : ∃ c, OccursAt c steps accepted ∧ c.name = d.name := by
  obtain ⟨g, hg, hd⟩ := occursAt_settleAll hfits h
  have hinfo := settle_info (Everywhere.of_occursAt hfits hg).here (atLast? accepted steps d.name)
  rw [← hd] at hinfo
  rw [hinfo] at hrequired
  obtain ⟨c, hc⟩ := Option.isSome_iff_exists.1 (accepted_of_required hrequired)
  exact ⟨c, occursAt_of_atLast? htext hc⟩

end Field

end ApiModels
