/-
ApiModels.Proofs.Field.Merge — what merging keeps.

Both merges take fields into a list one by one, and differ in what they
join and in what they do to a new field. `takeInto` is that one step run
along a list; what holds of both sides and is kept by a join holds of all
that is taken in (`forall_takeInto`).

A joined field says what the first side says and has parts of both
(`Joins`). A statement that looks at no more than that is `Joinable`; where
it holds everywhere in two fields it holds everywhere in what they are
joined to (`everywhere_join`, `everywhere_joinOrder`).
-/
import ApiModels.Field.Merge
import ApiModels.Proofs.Field.Names
import ApiModels.Proofs.Field.Tree

namespace ApiModels

namespace Field

/-! ## Taking in -/

/-- Takes fields in one by one: a known name is joined, a new one is put in as `fresh` makes it. -/
def takeInto (join : Field → Field → Field) (fresh : Field → Field) :
    List Field → List Field → List Field
  | fs, [] => fs
  | fs, g :: gs =>
    takeInto join fresh
      (put fs (match find? fs g.name with
        | some f => join f g
        | none => fresh g)) gs

theorem mergeInto_eq (fs gs : List Field) : mergeInto fs gs = takeInto join id fs gs := by
  induction gs generalizing fs with
  | nil => rw [mergeInto, takeInto]
  | cons g gs ih =>
    rw [mergeInto, takeInto]
    cases find? fs g.name with
    | none => exact ih _
    | some f => exact ih _

theorem mergeOrderInto_eq (fs gs : List Field) :
    mergeOrderInto fs gs = takeInto joinOrder outputOnly fs gs := by
  induction gs generalizing fs with
  | nil => rw [mergeOrderInto, takeInto]
  | cons g gs ih =>
    rw [mergeOrderInto, takeInto]
    cases find? fs g.name with
    | none => exact ih _
    | some f => exact ih _

/-- Two lists of properties made one where both sides have some; else the first side's stay. -/
def joinProperties (fs gs : List Field) : List Field :=
  if fs.isEmpty || gs.isEmpty then fs else sortByName (takeInto join id (byName fs) gs)

theorem joinProperties_nil (fs : List Field) : joinProperties fs [] = fs := by
  simp [joinProperties]

theorem join_eq (f g : Field) :
    join f g =
      { toFieldInfo := joinInfo f.toFieldInfo g.toFieldInfo
        item := joinItem f.item g.item
        properties := joinProperties f.properties g.properties } := by
  obtain ⟨info, item, properties⟩ := g
  rw [join, mergeInto_eq, joinProperties]

/-- A field with its properties joined with others; all else stays. -/
def withJoined (gs : List Field) (f : Field) : Field :=
  { f with properties := joinProperties f.properties gs }

theorem withJoined_nil (f : Field) : withJoined [] f = f := by
  cases f
  rw [withJoined, joinProperties_nil]

theorem joinItem_eq (i j : Option Field) :
    joinItem i j = i.map (withJoined ((j.map Field.properties).getD [])) := by
  cases j with
  | none => cases i <;> simp [joinItem, withJoined_nil]
  | some j =>
    obtain ⟨info, item, properties⟩ := j
    cases i <;> simp [joinItem, withJoined, joinProperties, mergeInto_eq]

/-- What holds of all fields on both sides, of joined and of fresh ones holds of what comes out. -/
theorem forall_takeInto {T : Field → Prop} {join : Field → Field → Field} {fresh : Field → Field}
    {gs : List Field} :
    ∀ {fs : List Field}, (∀ f ∈ fs, T f) →
      (∀ g ∈ gs, ∀ f, f.name.same g.name = true → T f → T (join f g)) →
      (∀ g ∈ gs, T (fresh g)) → ∀ h ∈ takeInto join fresh fs gs, T h := by
  induction gs with
  | nil => exact fun hfs _ _ => hfs
  | cons g gs ih =>
    intro fs hfs hjoin hfresh
    obtain ⟨hg, hgs⟩ := List.forall_mem_cons.1 hjoin
    obtain ⟨hg', hgs'⟩ := List.forall_mem_cons.1 hfresh
    refine ih (fun h hh => ?_) hgs hgs'
    rcases mem_put hh with rfl | hh
    · split
      · rename_i f hf
        exact hg f (find?_same hf) (hfs f (List.mem_of_find?_eq_some hf))
      · exact hg'
    · exact hfs h hh

theorem takeInto_ne_nil {join : Field → Field → Field} {fresh : Field → Field} {gs : List Field} :
    ∀ {fs : List Field}, fs ≠ [] → takeInto join fresh fs gs ≠ [] := by
  induction gs with
  | nil => exact fun h => h
  | cons g gs ih => exact fun _ => ih (put_ne_nil _ _)

/-- No text is a name twice in what comes out, whatever is taken in. -/
theorem distinct_takeInto {join : Field → Field → Field} {fresh : Field → Field}
    {gs : List Field} :
    ∀ {fs : List Field}, DistinctTexts fs → DistinctTexts (takeInto join fresh fs gs) := by
  induction gs with
  | nil => exact fun h => h
  | cons g gs ih => exact fun h => ih (h.put _)

/-! ## Joined fields -/

/-- What both merges leave of what a field says. -/
def outline (f : FieldInfo) : FieldInfo :=
  { name := f.name, type := f.type, kind := f.kind, format := f.format, itemType := f.itemType
    refName := f.refName, attrTypeRef := f.attrTypeRef }

/--
A field with the outline and item schema of `f`, skipped if `f` is, whose properties are named as on
both sides: they are those of `f`, or others of distinct names that were sorted.
-/
structure Joins (f g h : Field) : Prop where
  outline : outline h.toFieldInfo = outline f.toFieldInfo
  schemaSkip : h.schemaSkip = f.schemaSkip
  item : h.item.map Field.toFieldInfo = f.item.map Field.toFieldInfo
  properties : h.properties ≠ [] → f.properties ≠ [] ∨ f.kind = .object
  nonempty : f.properties ≠ [] → h.properties ≠ []
  names : ∀ p ∈ h.properties, p.name ∈ names f.properties ∨ p.name ∈ names g.properties
  sorted : h.properties = f.properties ∨
    ∃ fields, DistinctTexts fields ∧ h.properties = sortByName fields

/-- A statement about a field that is kept when it is joined with one of which it holds too. -/
def Joinable (P : Field → Prop) : Prop := ∀ f g h, P f → P g → Joins f g h → P h

namespace Joins

variable {f g h : Field}

theorem info {info : FieldInfo} (h : Field.outline info = Field.outline f.toFieldInfo)
    (hskip : info.schemaSkip = f.schemaSkip) : Joins f g { f with toFieldInfo := info } :=
  ⟨h, hskip, rfl, .inl, id, fun _ hp => .inl (List.mem_map_of_mem hp), .inl rfl⟩

theorem name (hj : Joins f g h) : h.name = f.name := by
  simpa [Field.outline] using congrArg FieldInfo.name hj.outline

theorem kind (hj : Joins f g h) : h.kind = f.kind := by
  simpa [Field.outline] using congrArg FieldInfo.kind hj.outline

theorem itemType (hj : Joins f g h) : h.itemType = f.itemType := by
  simpa [Field.outline] using congrArg FieldInfo.itemType hj.outline

theorem refName (hj : Joins f g h) : h.refName = f.refName := by
  simpa [Field.outline] using congrArg FieldInfo.refName hj.outline

theorem attrTypeRef (hj : Joins f g h) : h.attrTypeRef = f.attrTypeRef := by
  simpa [Field.outline] using congrArg FieldInfo.attrTypeRef hj.outline

theorem item_eq (hj : Joins f g h) {i : Field} (hi : h.item = some i) :
    ∃ j, f.item = some j ∧ i.toFieldInfo = j.toFieldInfo := by
  have hitem := hj.item
  rw [hi, Option.map_some] at hitem
  obtain ⟨j, hj, heq⟩ := Option.map_eq_some_iff.1 hitem.symm
  exact ⟨j, hj, heq.symm⟩

end Joins

theorem fits_joinable : Joinable Fits := by
  intro f g h hf _ hj
  constructor
  · have hsome := congrArg Option.isSome hj.item
    rw [Option.isSome_map, Option.isSome_map] at hsome
    rw [hsome, hj.kind, hj.itemType]
    exact hf.item_iff
  · intro i hi
    obtain ⟨j, hj', heq⟩ := hj.item_eq hi
    rw [show i.kind = j.kind from congrArg FieldInfo.kind heq]
    exact hf.item_object j hj'
  · intro hne
    rw [hj.kind]
    rcases hj.properties hne with hne | hkind
    · exact hf.properties_object hne
    · exact hkind

/-- Properties that were sorted strictly increase if they are all named by texts. -/
theorem ascending_joinable :
    Joinable fun f => AllTexts f.properties → Ascending f.properties := by
  intro f g h hf _ hj htexts
  rcases hj.sorted with heq | ⟨fields, hfields, heq⟩
  · rw [heq] at htexts ⊢
    exact hf htexts
  · rw [heq, allTexts_perm (sortByName_perm fields)] at htexts
    exact heq ▸ ascending_sortByName htexts hfields

theorem Joinable.and {P Q : Field → Prop} (hP : Joinable P) (hQ : Joinable Q) :
    Joinable fun f => P f ∧ Q f :=
  fun f g h hf hg hj => ⟨hP f g h hf.1 hg.1 hj, hQ f g h hf.2 hg.2 hj⟩

/-! ## Joining keeps what is joinable everywhere -/

section

variable {P : Field → Prop}

theorem everywhere_info (hP : Joinable P) {f : Field} (h : Everywhere P f) {info : FieldInfo}
    (heq : outline info = outline f.toFieldInfo) (hskip : info.schemaSkip = f.schemaSkip) :
    Everywhere P { f with toFieldInfo := info } :=
  .intro (hP f f _ h.here h.here (.info heq hskip)) (fun _ hi => h.item hi) h.properties

theorem everywhere_sorted {fields : List Field} (h : ∀ f ∈ fields, Everywhere P f) :
    ∀ f ∈ sortByName fields, Everywhere P f :=
  fun f hf => h f (mem_sortByName.1 hf)

theorem everywhere_byName {fields : List Field} (h : ∀ f ∈ fields, Everywhere P f) :
    ∀ f ∈ byName fields, Everywhere P f :=
  fun f hf => h f (mem_byName hf)

/-- What comes out of a join is named as the fields that went in. -/
theorem name_mem_takeInto {join : Field → Field → Field} {fresh : Field → Field}
    (hjoin : ∀ f g, (join f g).name = f.name) (hfresh : ∀ g, (fresh g).name = g.name)
    {fs gs : List Field} :
    ∀ h ∈ takeInto join fresh fs gs, h.name ∈ names fs ∨ h.name ∈ names gs := by
  refine forall_takeInto (T := fun h => h.name ∈ names fs ∨ h.name ∈ names gs) ?_ ?_ ?_
  · exact fun f hf => .inl (List.mem_map_of_mem hf)
  · intro g _ f _ hf
    rwa [hjoin]
  · intro g hg
    rw [hfresh]
    exact .inr (List.mem_map_of_mem hg)

theorem joinInfo_outline (f g : FieldInfo) : outline (joinInfo f g) = outline f := rfl

theorem orderInfo_outline (f g : FieldInfo) : outline (orderInfo f g) = outline f := rfl

theorem name_mem_joinProperties {fs gs : List Field} :
    ∀ p ∈ joinProperties fs gs, p.name ∈ names fs ∨ p.name ∈ names gs := by
  intro p hp
  unfold joinProperties at hp
  split at hp
  · exact .inl (List.mem_map_of_mem hp)
  · have hp' := mem_sortByName.1 hp
    refine (name_mem_takeInto (fun f g => by rw [join_eq]; rfl) (fun _ => rfl) p hp').imp ?_ id
    intro hmem
    obtain ⟨f, hf, hname⟩ := List.mem_map.1 hmem
    exact hname ▸ List.mem_map_of_mem (mem_byName hf)

theorem joinProperties_ne_nil_iff {fs gs : List Field} : joinProperties fs gs ≠ [] ↔ fs ≠ [] := by
  unfold joinProperties
  split
  · exact Iff.rfl
  · rename_i hboth
    have hfs : fs ≠ [] := by
      rintro rfl
      exact hboth rfl
    exact iff_of_true (sortByName_ne_nil (takeInto_ne_nil (byName_ne_nil hfs))) hfs

theorem joinProperties_sorted (fs gs : List Field) : joinProperties fs gs = fs ∨
    ∃ fields, DistinctTexts fields ∧ joinProperties fs gs = sortByName fields := by
  unfold joinProperties
  split
  · exact .inl rfl
  · exact .inr ⟨_, distinct_takeInto (distinct_byName fs), rfl⟩

theorem joins_withJoined (f g : Field) : Joins f g (withJoined g.properties f) :=
  ⟨rfl, rfl, rfl, fun h => .inl (joinProperties_ne_nil_iff.1 h), joinProperties_ne_nil_iff.2,
    name_mem_joinProperties, joinProperties_sorted _ _⟩

theorem joins_join (f g : Field) : Joins f g (join f g) := by
  rw [join_eq]
  refine ⟨joinInfo_outline _ _, rfl, ?_, fun h => .inl (joinProperties_ne_nil_iff.1 h),
    joinProperties_ne_nil_iff.2, name_mem_joinProperties, joinProperties_sorted _ _⟩
  rw [joinItem_eq, Option.map_map]
  rfl

theorem everywhere_join (hP : Joinable P) {g : Field} :
    ∀ {f : Field}, Everywhere P f → Everywhere P g → Everywhere P (join f g) := by
  induction g with
  | mk info item properties ihItem ihProperties =>
    intro f hf hg
    have hproperties : ∀ h ∈ joinProperties f.properties properties, Everywhere P h := by
      unfold joinProperties
      split
      · exact hf.properties
      · refine everywhere_sorted
          (forall_takeInto (everywhere_byName hf.properties) ?_ hg.properties)
        exact fun g hmem f _ hf => ihProperties g hmem hf (hg.properties g hmem)
    refine .intro (hP _ _ _ hf.here hg.here (joins_join _ _)) ?_ ?_
    · intro i hi
      rw [join_eq, joinItem_eq] at hi
      obtain ⟨fi, hfi, rfl⟩ := Option.map_eq_some_iff.1 hi
      have hfi' := hf.item hfi
      cases item with
      | none => exact (withJoined_nil fi).symm ▸ hfi'
      | some gi =>
        have hgi := hg.item rfl
        have hjoin := ihItem gi rfl hfi' hgi
        refine .intro (hP _ _ _ hfi'.here hgi.here (joins_withJoined _ _))
          (fun j hj => hfi'.item hj) ?_
        rw [join_eq] at hjoin
        exact hjoin.properties
    · rw [join_eq]
      exact hproperties

/-! ## Orders -/

/-- The output's properties taken into the input's, sorted by name. -/
def orderProperties (fs gs : List Field) : List Field :=
  sortByName (takeInto joinOrder outputOnly (byName fs) gs)

/-- A field with its properties joined with the output's. -/
def withOrder (gs : List Field) (f : Field) : Field :=
  { f with properties := orderProperties f.properties gs }

theorem joinOrder_eq (f g : Field) :
    joinOrder f g =
      if f.hasObjectItems && g.hasObjectItems then
        { f with
          toFieldInfo := orderInfo f.toFieldInfo g.toFieldInfo
          item := f.item.map (withOrder g.itemProperties) }
      else if f.isObject && g.isObject then
        withOrder g.properties { f with toFieldInfo := orderInfo f.toFieldInfo g.toFieldInfo }
      else { f with toFieldInfo := orderInfo f.toFieldInfo g.toFieldInfo } := by
  obtain ⟨info, item, properties⟩ := g
  have hitem : joinOrderItem f.item item =
      if item.isSome then f.item.map (withOrder (itemProperties ⟨info, item, properties⟩))
      else f.item := by
    cases item with
    | none => simp [joinOrderItem]
    | some i =>
      obtain ⟨_, _, _⟩ := i
      cases hf : f.item <;>
        simp [joinOrderItem, withOrder, orderProperties, itemProperties, mergeOrderInto_eq]
  rw [joinOrder, mergeOrderInto_eq, hitem]
  cases item with
  | none => simp [hasObjectItems, isObject, withOrder, orderProperties]
  | some i => simp [hasObjectItems, isObject, withOrder, orderProperties]

theorem joinOrder_name (f g : Field) : (joinOrder f g).name = f.name := by
  rw [joinOrder_eq]
  split
  · rfl
  · split <;> rfl

theorem name_mem_orderProperties {fs gs : List Field} :
    ∀ p ∈ orderProperties fs gs, p.name ∈ names fs ∨ p.name ∈ names gs := by
  intro p hp
  have hp' := mem_sortByName.1 hp
  have hfresh : ∀ g, (outputOnly g).name = g.name := fun _ => rfl
  refine (name_mem_takeInto joinOrder_name hfresh p hp').imp ?_ id
  intro hmem
  obtain ⟨f, hf, hname⟩ := List.mem_map.1 hmem
  exact hname ▸ List.mem_map_of_mem (mem_byName hf)

theorem orderProperties_ne_nil {fs gs : List Field} (h : fs ≠ []) : orderProperties fs gs ≠ [] :=
  sortByName_ne_nil (takeInto_ne_nil (byName_ne_nil h))

theorem orderProperties_sorted (fs gs : List Field) :
    ∃ fields, DistinctTexts fields ∧ orderProperties fs gs = sortByName fields :=
  ⟨_, distinct_takeInto (distinct_byName fs), rfl⟩

theorem joins_withOrder {f g : Field} (hkind : f.kind = .object) :
    Joins f g (withOrder g.properties f) :=
  ⟨rfl, rfl, rfl, fun _ => .inr hkind, orderProperties_ne_nil, name_mem_orderProperties,
    .inr (orderProperties_sorted _ _)⟩

theorem joins_joinOrder (f g : Field) : Joins f g (joinOrder f g) := by
  have hinfo := orderInfo_outline f.toFieldInfo g.toFieldInfo
  rw [joinOrder_eq]
  split
  · refine ⟨hinfo, rfl, ?_, .inl, id, fun _ hp => .inl (List.mem_map_of_mem hp), .inl rfl⟩
    rw [Option.map_map]
    rfl
  · split
    · rename_i hobject
      simp only [isObject, Bool.and_eq_true, beq_iff_eq] at hobject
      exact ⟨hinfo, rfl, rfl, fun _ => .inr hobject.1, orderProperties_ne_nil,
        name_mem_orderProperties, .inr (orderProperties_sorted _ _)⟩
    · exact .info hinfo rfl

theorem everywhere_outputOnly (hP : Joinable P) {g : Field} (hg : Everywhere P g) :
    Everywhere P (outputOnly g) :=
  everywhere_info hP hg rfl rfl

theorem everywhere_joinOrder (hP : Joinable P) (hfits : ∀ f, P f → f.Fits) {g : Field} :
    ∀ {f : Field}, Everywhere P f → Everywhere P g → Everywhere P (joinOrder f g) := by
  have inner : ∀ gs : List Field, (∀ g ∈ gs, ∀ {f : Field}, Everywhere P f → Everywhere P g →
      Everywhere P (joinOrder f g)) → (∀ g ∈ gs, Everywhere P g) → ∀ fs : List Field,
      (∀ f ∈ fs, Everywhere P f) → ∀ h ∈ orderProperties fs gs, Everywhere P h := by
    intro gs ih hgs fs hfs
    refine everywhere_sorted (forall_takeInto (everywhere_byName hfs) ?_ ?_)
    · exact fun g hg f _ hf => ih g hg hf (hgs g hg)
    · exact fun g hg => everywhere_outputOnly hP (hgs g hg)
  suffices hboth : ∀ g : Field, Everywhere P g →
      (∀ fs : List Field, (∀ f ∈ fs, Everywhere P f) →
        ∀ h ∈ orderProperties fs g.properties, Everywhere P h) ∧
      ∀ {f : Field}, Everywhere P f → Everywhere P (joinOrder f g) from
    fun {f} hf hg => (hboth g hg).2 hf
  intro g hg
  induction hg with
  | @intro g here hitem hproperties ihItem ihProperties =>
    have hg : Everywhere P g := .intro here hitem hproperties
    have hin := inner g.properties (fun g hg f hf _ => (ihProperties g hg).2 hf) hproperties
    refine ⟨hin, fun {f} hf => ?_⟩
    have hhere := hP f g _ hf.here here (joins_joinOrder f g)
    rw [joinOrder_eq] at hhere ⊢
    by_cases hitems : (f.hasObjectItems && g.hasObjectItems) = true
    · rw [if_pos hitems] at hhere ⊢
      refine .intro hhere ?_ hf.properties
      intro i hi
      obtain ⟨fi, hfi, rfl⟩ := Option.map_eq_some_iff.1 hi
      have hfi' := hf.item hfi
      simp only [hasObjectItems, Bool.and_eq_true] at hitems
      obtain ⟨gi, hgi⟩ := Option.isSome_iff_exists.1 hitems.2.2
      have hprops : g.itemProperties = gi.properties := by rw [itemProperties, hgi]
      have hkind := (hfits f hf.here).item_object fi hfi
      rw [hprops]
      refine .intro (hP fi gi _ hfi'.here (hitem gi hgi).here (joins_withOrder hkind))
        (fun j hj => hfi'.item hj) ?_
      exact (ihItem gi hgi).1 _ hfi'.properties
    · rw [if_neg hitems] at hhere ⊢
      by_cases hobject : (f.isObject && g.isObject) = true
      · rw [if_pos hobject] at hhere ⊢
        exact .intro hhere (fun i hi => hf.item hi) (hin _ hf.properties)
      · rw [if_neg hobject] at hhere ⊢
        exact .intro hhere (fun i hi => hf.item hi) hf.properties

theorem forall_put {T : Field → Prop} {fields : List Field} (h : ∀ f ∈ fields, T f) {g : Field}
    (hg : T g) : ∀ f ∈ put fields g, T f := by
  intro f hf
  rcases mem_put hf with rfl | hf
  · exact hg
  · exact h f hf

/-- What a demanded field is made from has what holds of all fields and of new ones. -/
theorem forall_demand {T : Field → Prop} {fields : List Field} {name : Scalar}
    {description : String} (h : ∀ f ∈ fields, T f) (hdemanded : ∀ f, T f → T (demanded f))
    (hleaf : T (leaf { name, description })) : ∀ f ∈ demand fields name description, T f := by
  unfold demand
  split
  · rename_i f hf
    exact forall_put h (hdemanded f (h f (List.mem_of_find?_eq_some hf)))
  · exact forall_put h (hdemanded _ hleaf)

theorem forall_mergeOrder {T : Field → Prop} {input output : List Field}
    (hinput : ∀ f ∈ input, T f)
    (hjoin : ∀ g ∈ output, ∀ f, f.name.same g.name = true → T f → T (joinOrder f g))
    (houtput : ∀ g ∈ output, T (outputOnly g)) (hdemanded : ∀ f, T f → T (demanded f))
    (hleaf : ∀ p ∈ orderFields, T (leaf { name := p.1, description := p.2 })) :
    ∀ h ∈ mergeOrder input output, T h := by
  have hmerged : ∀ h ∈ sortByName (mergeOrderInto (byName input) output), T h := by
    intro h hh
    rw [mem_sortByName, mergeOrderInto_eq] at hh
    exact forall_takeInto (fun f hf => hinput f (mem_byName hf)) hjoin houtput h hh
  intro h hh
  refine List.foldlRecOn (motive := fun fs => ∀ f ∈ fs, T f) orderFields _ hmerged ?_ h
    (mem_sortByName.1 hh)
  exact fun fs hfs p hp => forall_demand hfs hdemanded (hleaf p hp)

end

/-! ## Names of what comes out -/

section

variable {join : Field → Field → Field} {fresh : Field → Field}

/-- A field that is taken in is there under its name afterwards, and no other name is new. -/
theorem mem_texts_step (hjoin : ∀ f g, (join f g).name = f.name)
    (hfresh : ∀ g, (fresh g).name = g.name) (fs : List Field) (g : Field) {s : String} :
    s ∈ texts (put fs (match find? fs g.name with
        | some f => join f g
        | none => fresh g)) ↔ s ∈ texts fs ∨ g.name = .text s := by
  rw [mem_texts_put, or_comm]
  cases hf : find? fs g.name with
  | none => simp only [hfresh]
  | some f =>
    simp only [hjoin]
    constructor
    · rintro (h | h)
      · exact .inl h
      · exact .inl (mem_texts.2 ⟨f, List.mem_of_find?_eq_some hf, h⟩)
    · rintro (h | h)
      · exact .inl h
      · rw [h] at hf
        exact .inr (find?_text_some hf).2

theorem mem_texts_takeInto (hjoin : ∀ f g, (join f g).name = f.name)
    (hfresh : ∀ g, (fresh g).name = g.name) {gs : List Field} {s : String} :
    ∀ {fs : List Field}, s ∈ texts (takeInto join fresh fs gs) ↔ s ∈ texts fs ∨ s ∈ texts gs := by
  induction gs with
  | nil =>
    intro fs
    simp [takeInto, texts]
  | cons g gs ih =>
    intro fs
    rw [takeInto, ih, mem_texts_step hjoin hfresh, mem_texts_cons, or_assoc]

end

theorem join_name (f g : Field) : (join f g).name = f.name := by
  rw [join_eq]
  rfl

theorem id_name (g : Field) : (id g : Field).name = g.name := rfl

theorem outputOnly_name (g : Field) : (outputOnly g).name = g.name := rfl

/-- The names that are texts of a merge are those of both sides. -/
theorem mem_texts_merge {fs gs : List Field} {s : String} :
    s ∈ texts (merge fs gs) ↔ s ∈ texts fs ∨ s ∈ texts gs := by
  rw [merge, mem_texts_perm (sortByName_perm _), mergeInto_eq,
    mem_texts_takeInto join_name id_name, mem_texts_byName]

theorem texts_subset_mergeOrder {input output : List Field} {s : String}
    (h : s ∈ texts output) : s ∈ texts (mergeOrder input output) := by
  have hmerged : s ∈ texts (sortByName (mergeOrderInto (byName input) output)) := by
    rw [mem_texts_perm (sortByName_perm _), mergeOrderInto_eq,
      mem_texts_takeInto joinOrder_name outputOnly_name]
    exact .inr h
  have hfields := List.foldlRecOn (motive := fun fs => s ∈ texts fs) orderFields
    (fun fs p => demand fs p.1 p.2) hmerged fun fs hfs p _ => by
      dsimp only [demand]
      split <;> exact mem_texts_put.2 (.inr hfs)
  exact (mem_texts_perm (sortByName_perm _)).2 hfields

end Field

end ApiModels
