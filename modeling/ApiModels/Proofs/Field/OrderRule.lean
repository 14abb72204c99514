/-
ApiModels.Proofs.Field.OrderRule — the merge of an order is what its rule
says, and nothing else is.

`IsOrderMerge fs gs hs` says what the output `gs` of an order taken into its
input `fs` has: the names of both, in order; a field of the input alone as it
stands; a field of the output alone, read-only and not required, with all
that is inside it as it stands; and of a name that both have, the input's
field with what the output adds to it. Where both are objects, or arrays of
objects, the same is said of what is inside them, so the rule is an inductive
predicate. `IsOrder` adds the two fields that every order is given.

Sides whose fields are named by distinct texts on each level leave no choice:
`mergeOrder` is the one list that such a statement holds of
(`eq_mergeOrder_iff`).
-/
import ApiModels.Proofs.Field.Order

namespace ApiModels

namespace Field

/-! ## The specification -/

/-- A step can be made through a field: into an object, or into an array of objects. -/
def Step.Enters : Step → Field → Prop
  | .object _, f => f.kind = .object
  | .items _, f => f.kind.isSequence = true ∧ f.item.isSome = true

/-- A list is what the input `fs` of an order becomes when its output `gs` is taken in. -/
inductive IsOrderMerge : List Field → List Field → List Field → Prop where
  | intro {fs gs hs : List Field}
      (ascending : Ascending hs)
      (names : ∀ name, name ∈ Field.names hs ↔ name ∈ Field.names fs ∨ name ∈ Field.names gs)
      (first : ∀ h ∈ hs, h.name ∉ Field.names gs → h ∈ fs)
      (second : ∀ h ∈ hs, h.name ∉ Field.names fs →
        ∃ g ∈ gs, h = { g with readOnly := true, required := false })
      (both : ∀ h ∈ hs, ∀ f ∈ fs, ∀ g ∈ gs, f.name = h.name → g.name = h.name →
        h = { f with
          serverComputed := f.serverComputed || !f.required
          description := if f.description = "" then g.description else f.description
          properties := h.properties
          item := f.item.map fun i => { i with properties := h.itemProperties } })
      (kept : ∀ h ∈ hs, ∀ f ∈ fs, ∀ g ∈ gs, f.name = h.name → g.name = h.name →
        ∀ step : Step, ¬ (step.Enters f ∧ step.Enters g) → step.inside h = step.inside f)
      (nested : ∀ h ∈ hs, ∀ f ∈ fs, ∀ g ∈ gs, f.name = h.name → g.name = h.name →
        ∀ step : Step, step.Enters f ∧ step.Enters g →
          IsOrderMerge (step.inside f) (step.inside g) (step.inside h)) :
      IsOrderMerge fs gs hs

/-- The two names that every order has. -/
def IsCommon (name : Scalar) : Prop := name = .text "project" ∨ name = .text "offering"

/-- What an order is given under one of the two where neither of its sides has the name. -/
def IsNew (f : Field) : Prop :=
  f = leaf { name := .text "project", description := "Project URL" } ∨
    f = leaf { name := .text "offering", description := "Offering URL" }

/-- A list is an order's input and output merged, with the fields that every order is given. -/
structure IsOrder (fs gs hs : List Field) : Prop where
  ascending : Ascending hs
  names : ∀ name, name ∈ Field.names hs ↔
    name ∈ Field.names fs ∨ name ∈ Field.names gs ∨ IsCommon name
  /-- Fields of other names are merged; the two are demanded of what is merged or of a new text. -/
  fields : ∃ ms, IsOrderMerge fs gs ms ∧ (∀ h ∈ hs, ¬ IsCommon h.name → h ∈ ms) ∧
    ∀ h ∈ hs, IsCommon h.name → ∃ m,
      h = { m with required := true, readOnly := false, serverComputed := false } ∧
      (m ∈ ms ∨ m.name ∉ Field.names ms ∧ IsNew m)
  /-- The two fields have the type of the input's field, else that of the output's, else text. -/
  type : ∀ h ∈ hs, IsCommon h.name →
    (∀ f ∈ fs, f.name = h.name → h.type = f.type) ∧
    (h.name ∉ Field.names fs → ∀ g ∈ gs, g.name = h.name → h.type = g.type) ∧
    (h.name ∉ Field.names fs → h.name ∉ Field.names gs → h.type = .string)

/-! ## What the rule leaves open is nothing -/

theorem IsOrderMerge.distinctNames {fs gs hs : List Field} (h : IsOrderMerge fs gs hs)
    (hfs : AllTexts fs) (hgs : AllTexts gs) : DistinctNames hs := by
  cases h with
  | intro ascending names =>
    refine ⟨fun h hh => ?_, ascending.distinct⟩
    rcases (names h.name).1 (List.mem_map_of_mem hh) with hname | hname
    · exact hfs.isText hname
    · exact hgs.isText hname

/-- What an order's input becomes is determined by its rule, on each level. -/
theorem IsOrderMerge.unique {fs gs hs : List Field} (hmerge : IsOrderMerge fs gs hs) :
    ∀ {hs' : List Field}, OnEachLevel DistinctNames fs → OnEachLevel DistinctNames gs →
      IsOrderMerge fs gs hs' → hs = hs' := by
  induction hmerge with
  | @intro fs gs hs ascending names first second both kept _ ih =>
    intro hs' hfs hgs hmerge'
    obtain ⟨ascending', names', first', second', both', kept', nested'⟩ := hmerge'
    have hnames : ∀ name, name ∈ Field.names hs ↔ name ∈ Field.names hs' :=
      fun name => (names name).trans (names' name).symm
    refine ascending.ext_names ascending' hnames fun h hh h' hh' hname => ?_
    by_cases hsecond : h.name ∈ Field.names gs
    · by_cases hfirst : h.name ∈ Field.names fs
      · obtain ⟨f, hf, hfname⟩ := List.mem_map.1 hfirst
        obtain ⟨g, hg, hgname⟩ := List.mem_map.1 hsecond
        have hfname' := hfname.trans hname
        have hgname' := hgname.trans hname
        -- What is inside both is given by the rule one level below, or is the input's.
        have hinside : ∀ step : Step, step.inside h = step.inside h' := by
          intro step
          by_cases henters : step.Enters f ∧ step.Enters g
          · exact ih h hh f hf g hg hfname hgname step henters
              (hfs.inside distinctNames_nil hf step) (hgs.inside distinctNames_nil hg step)
              (nested' h' hh' f hf g hg hfname' hgname' step henters)
          · rw [kept h hh f hf g hg hfname hgname step henters,
              kept' h' hh' f hf g hg hfname' hgname' step henters]
        have hproperties : h.properties = h'.properties := hinside (.object h.name)
        have hitems : h.itemProperties = h'.itemProperties := hinside (.items h.name)
        rw [both h hh f hf g hg hfname hgname, both' h' hh' f hf g hg hfname' hgname',
          hproperties, hitems]
      · obtain ⟨g, hg, rfl⟩ := second h hh hfirst
        obtain ⟨g', hg', rfl⟩ := second' h' hh' (hname ▸ hfirst)
        rw [hgs.here.eq_of_name_eq hg hg' hname]
    · exact hfs.here.eq_of_name_eq (first h hh hsecond) (first' h' hh' (hname ▸ hsecond)) hname

/-! ## What taking in leaves -/

theorem orderProperties_eq (fs gs : List Field) : orderProperties fs gs = mergeSides fs gs := by
  rw [orderProperties, mergeSides, mergeOrderInto_eq]

/-- Through a joined field one comes to what is inside it on both sides, if a step can be made. -/
theorem inside_joinOrder_of_enters {f g : Field} {step : Step}
    (h : step.Enters f ∧ step.Enters g) :
    step.inside (joinOrder f g) = mergeSides (step.inside f) (step.inside g) := by
  rw [joinOrder_eq]
  cases step with
  | object n =>
    obtain ⟨hf, hg⟩ : f.kind = .object ∧ g.kind = .object := h
    rw [if_neg (by simp [hasObjectItems, hf, AttrKind.isSequence]),
      if_pos (by simp [isObject, hf, hg])]
    exact orderProperties_eq _ _
  | items n =>
    obtain ⟨⟨hf, hitem⟩, hg, hgitem⟩ := h
    obtain ⟨i, hi⟩ := Option.isSome_iff_exists.1 hitem
    rw [if_pos (by simp [hasObjectItems, hf, hg, hitem, hgitem])]
    simp only [Step.inside, itemProperties, hi, Option.map_some, withOrder]
    exact orderProperties_eq _ _

theorem inside_joinOrder_of_not_enters {f g : Field} {step : Step}
    (h : ¬ (step.Enters f ∧ step.Enters g)) : step.inside (joinOrder f g) = step.inside f := by
  rw [joinOrder_eq]
  split
  · rename_i hitems
    cases step with
    | object n => rfl
    | items n => exact absurd (by simpa [Step.Enters, hasObjectItems] using hitems) h
  · split
    · rename_i hobject
      cases step with
      | object n => exact absurd (by simpa [Step.Enters, isObject] using hobject) h
      | items n => rfl
    · cases step <;> rfl

theorem eq_of_parts {f : Field} {info : FieldInfo} {item : Option Field}
    (hinfo : f.toFieldInfo = info) (hitem : f.item = item) : f = ⟨info, item, f.properties⟩ := by
  subst hinfo hitem
  cases f
  rfl

theorem item_eq_map (f : Field) :
    f.item = f.item.map fun i => { i with properties := f.itemProperties } := by
  rw [itemProperties]
  rcases f.item with _ | ⟨_, _, _⟩ <;> rfl

/-- A joined field keeps the item schema of the input, but for the properties. -/
theorem joinOrder_item (f g : Field) :
    (joinOrder f g).item =
      f.item.map fun i => { i with properties := (joinOrder f g).itemProperties } := by
  rw [joinOrder_eq]
  split
  · cases f.item <;> rfl
  · split <;> exact item_eq_map f

/-- A joined field is the input's, but for two statements and what is inside it. -/
theorem joinOrder_eq_with (f g : Field) :
    joinOrder f g = { f with
      serverComputed := f.serverComputed || !f.required
      description := if f.description = "" then g.description else f.description
      properties := (joinOrder f g).properties
      item := f.item.map fun i => { i with properties := (joinOrder f g).itemProperties } } := by
  have hinfo : (joinOrder f g).toFieldInfo = { f.toFieldInfo with
      serverComputed := f.serverComputed || !f.required
      description := if f.description = "" then g.description else f.description } := by
    rw [joinOrder_info, orderInfo]
    simp only [String.isEmpty_iff]
  exact eq_of_parts hinfo (joinOrder_item f g)

/-- What stands in the merge of both sides under a text is what was found there. -/
theorem orderedField?_of_mem {fs gs : List Field} (hfs : DistinctTexts fs)
    (hgs : DistinctTexts gs) {h : Field} (hmem : h ∈ mergeSides fs gs) {s : String}
    (hname : h.name = .text s) :
    orderedField? (find? fs (.text s)) (find? gs (.text s)) = some h := by
  rw [← find?_mergeSides hfs hgs]
  exact (find?_text_iff (distinct_mergeSides fs gs)).2 ⟨hmem, hname⟩

section

variable {fs gs : List Field} {h : Field}

/-- What stands in the merge of both sides is what was found there under its name. -/
theorem orderedField?_of_mem_mergeSides (hfs : DistinctNames fs) (hgs : DistinctNames gs)
    (hmem : h ∈ mergeSides fs gs) :
    ∃ s, h.name = .text s ∧ orderedField? (find? fs (.text s)) (find? gs (.text s)) = some h := by
  obtain ⟨s, hs⟩ := Scalar.isText_iff.1 (allTexts_mergeSides.2 ⟨hfs.1, hgs.1⟩ h hmem)
  exact ⟨s, hs, orderedField?_of_mem hfs.2 hgs.2 hmem hs⟩

/-- A field of the input alone stands as it is. -/
theorem mem_of_mem_mergeSides (hfs : DistinctNames fs) (hgs : DistinctNames gs)
    (hmem : h ∈ mergeSides fs gs) (hnot : h.name ∉ names gs) : h ∈ fs := by
  obtain ⟨s, hs, hfound⟩ := orderedField?_of_mem_mergeSides hfs hgs hmem
  rw [hs] at hnot
  rw [find?_eq_none hnot] at hfound
  cases hf : find? fs (.text s) with
  | none =>
    rw [hf] at hfound
    cases hfound
  | some f =>
    rw [hf] at hfound
    cases hfound
    exact (find?_text_some hf).1

/-- A field of the output alone is read-only and not required. -/
theorem exists_outputOnly_of_mem_mergeSides (hfs : DistinctNames fs) (hgs : DistinctNames gs)
    (hmem : h ∈ mergeSides fs gs) (hnot : h.name ∉ names fs) : ∃ g ∈ gs, h = outputOnly g := by
  obtain ⟨s, hs, hfound⟩ := orderedField?_of_mem_mergeSides hfs hgs hmem
  rw [hs] at hnot
  rw [find?_eq_none hnot, orderedField?] at hfound
  obtain ⟨g, hg, rfl⟩ := Option.map_eq_some_iff.1 hfound
  exact ⟨g, (find?_text_some hg).1, rfl⟩

/-- Under a name that both sides have stand their fields, joined. -/
theorem eq_joinOrder_of_mem_mergeSides (hfs : DistinctNames fs) (hgs : DistinctNames gs)
    (hmem : h ∈ mergeSides fs gs) {f g : Field} (hf : f ∈ fs) (hg : g ∈ gs)
    (hfname : f.name = h.name) (hgname : g.name = h.name) : h = joinOrder f g := by
  obtain ⟨s, hs, hfound⟩ := orderedField?_of_mem_mergeSides hfs hgs hmem
  rw [(find?_text_iff hfs.2).2 ⟨hf, hfname.trans hs⟩,
    (find?_text_iff hgs.2).2 ⟨hg, hgname.trans hs⟩, orderedField?] at hfound
  exact (Option.some.inj hfound).symm

end

/-- The rule holds of one level if it holds of those below it. -/
theorem isOrderMerge_of_inside {fs gs : List Field} (hfs : DistinctNames fs)
    (hgs : DistinctNames gs)
    (hinside : ∀ f ∈ fs, ∀ g ∈ gs, ∀ step : Step,
      IsOrderMerge (step.inside f) (step.inside g)
        (mergeSides (step.inside f) (step.inside g))) :
    IsOrderMerge fs gs (mergeSides fs gs) := by
  refine .intro (ascending_mergeSides hfs.1 hgs.1) (fun _ => mem_names_mergeSides hfs.1 hgs.1)
    (fun h hh => mem_of_mem_mergeSides hfs hgs hh)
    (fun h hh => exists_outputOnly_of_mem_mergeSides hfs hgs hh) ?both ?kept ?nested
  case both =>
    intro h hh f hf g hg hfname hgname
    rw [eq_joinOrder_of_mem_mergeSides hfs hgs hh hf hg hfname hgname]
    exact joinOrder_eq_with f g
  case kept =>
    intro h hh f hf g hg hfname hgname step henters
    rw [eq_joinOrder_of_mem_mergeSides hfs hgs hh hf hg hfname hgname]
    exact inside_joinOrder_of_not_enters henters
  case nested =>
    intro h hh f hf g hg hfname hgname step henters
    rw [eq_joinOrder_of_mem_mergeSides hfs hgs hh hf hg hfname hgname,
      inside_joinOrder_of_enters henters]
    exact hinside f hf g hg step

/-- The rule holds of an output field's inside, whatever of the input it is taken into. -/
theorem isOrderMerge_inside {g : Field} : ∀ {fs : List Field} {step : Step},
    OnEachLevel DistinctNames fs → OnEachLevel DistinctNames (step.inside g) →
    IsOrderMerge fs (step.inside g) (mergeSides fs (step.inside g)) := by
  induction g using insideInduction with
  | h g ih =>
    intro fs step hfs hgs
    refine isOrderMerge_of_inside hfs.here hgs.here fun f hf k hk step' => ?_
    exact ih step k hk (hfs.inside distinctNames_nil hf step')
      (hgs.inside distinctNames_nil hk step')

theorem isOrderMerge_mergeSides {fs gs : List Field} (hfs : OnEachLevel DistinctNames fs)
    (hgs : OnEachLevel DistinctNames gs) : IsOrderMerge fs gs (mergeSides fs gs) := by
  refine isOrderMerge_of_inside hfs.here hgs.here fun f hf g hg step => ?_
  exact isOrderMerge_inside (hfs.inside distinctNames_nil hf step)
    (hgs.inside distinctNames_nil hg step)

/-! ## The merge of an order -/

/-- Under a name that every order has stands what the sides have there, demanded, or a new text. -/
theorem wanted_of_mem {fs gs : List Field} (hfs : DistinctTexts fs) (hgs : DistinctTexts gs)
    {h : Field} (hh : h ∈ mergeOrder fs gs) {s : String} (hs : h.name = .text s)
    (hwanted : .text s ∈ orderNames) :
    ∃ description, (.text s, description) ∈ orderFields ∧
      h = demanded ((orderedField? (find? fs (.text s)) (find? gs (.text s))).getD
        (leaf { name := .text s, description := description })) := by
  obtain ⟨description, hmem⟩ := exists_description hwanted
  have hfound := (find?_text_iff (distinct_mergeOrder fs gs)).2 ⟨hh, hs⟩
  rw [find?_mergeOrder_wanted hmem, find?_mergeSides hfs hgs] at hfound
  exact ⟨description, hmem, (Option.some.inj hfound).symm⟩

theorem mem_orderNames_iff {name : Scalar} : name ∈ orderNames ↔ IsCommon name := by
  simp [orderNames, orderFields, IsCommon]

theorem isNew_of_mem {name : Scalar} {description : String}
    (h : (name, description) ∈ orderFields) :
    IsNew (leaf { name := name, description := description }) := by
  simp only [orderFields, List.mem_cons, List.not_mem_nil, or_false, Prod.mk.injEq] at h
  rcases h with ⟨rfl, rfl⟩ | ⟨rfl, rfl⟩
  · exact .inl rfl
  · exact .inr rfl

theorem IsNew.eq_of_name_eq {f g : Field} (hf : IsNew f) (hg : IsNew g) (h : f.name = g.name) :
    f = g := by
  rcases hf with rfl | rfl <;> rcases hg with rfl | rfl
  · rfl
  · exact absurd h (by decide)
  · exact absurd h (by decide)
  · rfl

section

variable {fs gs : List Field} {h : Field}

theorem mem_names_mergeOrder (hfs : DistinctNames fs) (hgs : DistinctNames gs) : ∀ name,
    name ∈ names (mergeOrder fs gs) ↔ name ∈ names fs ∨ name ∈ names gs ∨ IsCommon name := by
  have htexts := allTexts_mergeOrder.2 ⟨hfs.1, hgs.1⟩
  refine Scalar.iff_of_texts (fun _ => htexts.isText) ?_ fun s => ?_
  · rintro name (hname | hname | hname)
    · exact hfs.1.isText hname
    · exact hgs.1.isText hname
    · exact orderNames_texts name (mem_orderNames_iff.2 hname)
  · rw [← mem_orderNames_iff, text_mem_names_iff, mem_texts_mergeOrder hfs.2 hgs.2,
      text_mem_names_iff, text_mem_names_iff]

/-- Nothing but the two fields is demanded: all others are those of both sides merged. -/
theorem mem_mergeSides_of_mem_mergeOrder (hfs : DistinctNames fs) (hgs : DistinctNames gs)
    (hmem : h ∈ mergeOrder fs gs) (hnot : ¬ IsCommon h.name) : h ∈ mergeSides fs gs := by
  obtain ⟨s, hs⟩ := Scalar.isText_iff.1 (allTexts_mergeOrder.2 ⟨hfs.1, hgs.1⟩ h hmem)
  have hfound := (find?_text_iff (distinct_mergeOrder fs gs)).2 ⟨hmem, hs⟩
  rw [mergeOrder_eq, find?_sortByName (distinct_demandEach (distinct_mergeSides fs gs)),
    find?_demandEach_of_not_mem (hs ▸ mem_orderNames_iff.not.2 hnot)] at hfound
  exact (find?_text_some hfound).1

/-- What is demanded is a field of both sides merged, or a new text. -/
theorem exists_demanded_of_mem_mergeOrder (hfs : DistinctNames fs) (hgs : DistinctNames gs)
    (hmem : h ∈ mergeOrder fs gs) (hcommon : IsCommon h.name) :
    ∃ m, h = demanded m ∧
      (m ∈ mergeSides fs gs ∨ m.name ∉ names (mergeSides fs gs) ∧ IsNew m) := by
  obtain ⟨s, hs⟩ := Scalar.isText_iff.1 (allTexts_mergeOrder.2 ⟨hfs.1, hgs.1⟩ h hmem)
  obtain ⟨description, hwanted, rfl⟩ :=
    wanted_of_mem hfs.2 hgs.2 hmem hs (hs ▸ mem_orderNames_iff.2 hcommon)
  refine ⟨_, rfl, ?_⟩
  rw [← find?_mergeSides hfs.2 hgs.2]
  cases hfound : find? (mergeSides fs gs) (.text s) with
  | none =>
    refine .inr ⟨fun hin => ?_, isNew_of_mem hwanted⟩
    rw [← Option.not_isSome_iff_eq_none, find?_isSome_iff] at hfound
    exact hfound (text_mem_names_iff.1 hin)
  | some m => exact .inl (find?_text_some hfound).1

theorem type_of_mem_mergeOrder (hfs : DistinctNames fs) (hgs : DistinctNames gs)
    (hmem : h ∈ mergeOrder fs gs) (hcommon : IsCommon h.name) :
    (∀ f ∈ fs, f.name = h.name → h.type = f.type) ∧
    (h.name ∉ names fs → ∀ g ∈ gs, g.name = h.name → h.type = g.type) ∧
    (h.name ∉ names fs → h.name ∉ names gs → h.type = .string) := by
  obtain ⟨s, hs⟩ := Scalar.isText_iff.1 (allTexts_mergeOrder.2 ⟨hfs.1, hgs.1⟩ h hmem)
  obtain ⟨description, -, heq⟩ :=
    wanted_of_mem hfs.2 hgs.2 hmem hs (hs ▸ mem_orderNames_iff.2 hcommon)
  have htype := congrArg (fun f : Field => f.type) heq
  rw [hs]
  refine ⟨fun f hf hfname => ?_, fun hnot g hg hgname => ?_, fun hnot hnot' => ?_⟩
  · rw [htype, (find?_text_iff hfs.2).2 ⟨hf, hfname⟩]
    cases find? gs (.text s) with
    | none => rfl
    | some g =>
      have hinfo := congrArg FieldInfo.type (joinOrder_info f g)
      exact hinfo
  · rw [htype, find?_eq_none hnot, (find?_text_iff hgs.2).2 ⟨hg, hgname⟩]
    rfl
  · rw [htype, find?_eq_none hnot, find?_eq_none hnot']
    rfl

theorem isOrder_mergeOrder (hfs : OnEachLevel DistinctNames fs)
    (hgs : OnEachLevel DistinctNames gs) : IsOrder fs gs (mergeOrder fs gs) where
  ascending := ascending_mergeOrder hfs.here.1 hgs.here.1
  names := mem_names_mergeOrder hfs.here hgs.here
  fields := ⟨_, isOrderMerge_mergeSides hfs hgs,
    fun _ hmem => mem_mergeSides_of_mem_mergeOrder hfs.here hgs.here hmem,
    fun _ hmem => exists_demanded_of_mem_mergeOrder hfs.here hgs.here hmem⟩
  type := fun _ hmem => type_of_mem_mergeOrder hfs.here hgs.here hmem

end

/-- The merge of an order is determined by its rule. -/
theorem IsOrder.unique {fs gs hs hs' : List Field} (hfs : OnEachLevel DistinctNames fs)
    (hgs : OnEachLevel DistinctNames gs) (horder : IsOrder fs gs hs)
    (horder' : IsOrder fs gs hs') : hs = hs' := by
  obtain ⟨ms, hmerge, hothers, hwanted⟩ := horder.fields
  obtain ⟨ms', hmerge', hothers', hwanted'⟩ := horder'.fields
  obtain rfl := hmerge.unique hfs hgs hmerge'
  have hdistinct := hmerge.distinctNames hfs.here.1 hgs.here.1
  refine horder.ascending.ext_names horder'.ascending
    (fun name => (horder.names name).trans (horder'.names name).symm) fun h hh h' hh' hname => ?_
  by_cases hin : IsCommon h.name
  · obtain ⟨m, rfl, hm⟩ := hwanted h hh hin
    obtain ⟨m', rfl, hm'⟩ := hwanted' h' hh' (hname ▸ hin)
    have hname : m.name = m'.name := hname
    -- Both are demanded of the one field of this name, or of the one new text.
    suffices heq : m = m' by rw [heq]
    rcases hm with hm | ⟨hm, hnew⟩
    · rcases hm' with hm' | ⟨hm', -⟩
      · exact hdistinct.eq_of_name_eq hm hm' hname
      · exact absurd (hname ▸ List.mem_map_of_mem hm) hm'
    · rcases hm' with hm' | ⟨-, hnew'⟩
      · exact absurd (hname ▸ List.mem_map_of_mem hm') hm
      · exact hnew.eq_of_name_eq hnew' hname
  · exact hdistinct.eq_of_name_eq (hothers h hh hin) (hothers' h' hh' (hname ▸ hin)) hname

/--
Of an input and an output whose fields are named by distinct texts on each level, a list is the
merge of an order exactly if it is what the rule says: their names and those that every order has,
in order; the fields of one side, or of both, as the rule has them on each level; and under the two
names that every order has a field that must be given.
-/
theorem eq_mergeOrder_iff {fs gs : List Field} (hfs : OnEachLevel DistinctNames fs)
    (hgs : OnEachLevel DistinctNames gs) {hs : List Field} :
    hs = mergeOrder fs gs ↔ IsOrder fs gs hs := by
  constructor
  · rintro rfl
    exact isOrder_mergeOrder hfs hgs
  · exact fun h => h.unique hfs hgs (isOrder_mergeOrder hfs hgs)

/-! ## An order of a machine

It is ordered with a flavor, a disk of some size, and networks; what comes out has an address in
each network, a state of the disk and a project.
-/

namespace Sample

def orderInput : List Field :=
  [{ name := .text "disk", type := .object, required := true
     properties := [.leaf { name := .text "size", type := .integer }] },
   .leaf { name := .text "flavor", required := true },
   { name := .text "networks", type := .array, itemType := some .object
     item := some { name := .text "", type := .object
                    properties := [.leaf { name := .text "subnet" }] } }]

def orderOutput : List Field :=
  [{ name := .text "disk", type := .object
     properties := [.leaf { name := .text "size", description := "In gigabytes" },
       .leaf { name := .text "state", required := true }] },
   { name := .text "networks", type := .array, itemType := some .object
     item := some { name := .text "", type := .object
                    properties := [.leaf { name := .text "address" }] } },
   .leaf { name := .text "project", type := .integer }]

end Sample

theorem eq_mergeOrder_iff_sample :
    OnEachLevel DistinctNames Sample.orderInput ∧ OnEachLevel DistinctNames Sample.orderOutput ∧
    IsOrder Sample.orderInput Sample.orderOutput
      (mergeOrder Sample.orderInput Sample.orderOutput) ∧
    (mergeOrder Sample.orderInput Sample.orderOutput).map
        (fun f => (f.name, f.type, f.required, f.readOnly, f.serverComputed)) =
      [(.text "disk", .object, true, false, false), (.text "flavor", .string, true, false, false),
       (.text "networks", .array, false, false, true),
       (.text "offering", .string, true, false, false),
       (.text "project", .integer, true, false, false)] ∧
    ((mergeOrder Sample.orderInput Sample.orderOutput).flatMap
        fun f => f.properties ++ f.itemProperties).map
          (fun f => (f.name, f.description, f.readOnly, f.serverComputed)) =
      [(.text "size", "In gigabytes", false, true), (.text "state", "", true, false),
       (.text "address", "", true, false), (.text "subnet", "", false, false)] := by
  have hin : OnEachLevel DistinctNames Sample.orderInput :=
    Everywhere.forall_level (by decide) (by decide)
  have hout : OnEachLevel DistinctNames Sample.orderOutput :=
    Everywhere.forall_level (by decide) (by decide)
  exact ⟨hin, hout, (eq_mergeOrder_iff hin hout).1 rfl, by decide, by decide⟩

end Field

end ApiModels
