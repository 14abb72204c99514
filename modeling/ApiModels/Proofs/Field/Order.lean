/-
ApiModels.Proofs.Field.Order — what the merge of an order has under a name.

The merge of an order takes the output into the input and then demands the
two fields that every order has. Under any other name it has what the sides
have there (`orderedField?`); under one of the two it has a field that is
required, writable and not the server's, whatever the sides say
(`find?_mergeOrder_of_mem`). No name comes of it twice.
-/
import ApiModels.Proofs.Field.Origin

namespace ApiModels

namespace Field

/-! ## Input and output -/

theorem joinOrder_info (f g : Field) :
    (joinOrder f g).toFieldInfo = orderInfo f.toFieldInfo g.toFieldInfo := by
  rw [joinOrder_eq]
  split
  · rfl
  · split <;> rfl

/-- What an order has of a name of which its input and its output have these. -/
def orderedField? : Option Field → Option Field → Option Field
  | some f, some g => some (joinOrder f g)
  | some f, none => some f
  | none, g => g.map outputOnly

/-- An order's input and output, before two names are demanded. -/
def mergeSides (input output : List Field) : List Field :=
  sortByName (mergeOrderInto (byName input) output)

theorem distinct_mergeSides (input output : List Field) :
    DistinctTexts (mergeSides input output) := by
  rw [mergeSides, mergeOrderInto_eq]
  exact (distinct_takeInto (distinct_byName input)).perm (sortByName_perm _).symm

theorem find?_mergeSides {input output : List Field} (hinput : DistinctTexts input)
    (houtput : DistinctTexts output) (s : String) :
    find? (mergeSides input output) (.text s) =
      orderedField? (find? input (.text s)) (find? output (.text s)) := by
  rw [mergeSides, mergeOrderInto_eq, find?_sortByName (distinct_takeInto (distinct_byName input)),
    find?_takeInto joinOrder_name outputOnly_name s houtput, find?_byName hinput]
  cases find? input (.text s) <;> cases find? output (.text s) <;> rfl

theorem mem_texts_mergeSides {input output : List Field} {s : String} :
    s ∈ texts (mergeSides input output) ↔ s ∈ texts input ∨ s ∈ texts output := by
  rw [mergeSides, mem_texts_perm (sortByName_perm _), mergeOrderInto_eq,
    mem_texts_takeInto joinOrder_name outputOnly_name, mem_texts_byName]

theorem allTexts_mergeSides {input output : List Field} :
    AllTexts (mergeSides input output) ↔ AllTexts input ∧ AllTexts output := by
  rw [mergeSides, mergeOrderInto_eq, allTexts_perm (sortByName_perm _),
    allTexts_takeInto joinOrder_name outputOnly_name, allTexts_byName]

theorem ascending_mergeSides {input output : List Field} (hinput : AllTexts input)
    (houtput : AllTexts output) : Ascending (mergeSides input output) := by
  have htexts := allTexts_mergeSides.2 ⟨hinput, houtput⟩
  rw [mergeSides, allTexts_perm (sortByName_perm _)] at htexts
  exact ascending_sortByName htexts ((distinct_mergeSides input output).perm (sortByName_perm _))

theorem mem_names_mergeSides {input output : List Field} (hinput : AllTexts input)
    (houtput : AllTexts output) {name : Scalar} :
    name ∈ names (mergeSides input output) ↔ name ∈ names input ∨ name ∈ names output := by
  rw [mem_names_iff (allTexts_mergeSides.2 ⟨hinput, houtput⟩), mem_names_iff hinput,
    mem_names_iff houtput, ← exists_or]
  refine exists_congr fun s => ?_
  rw [mem_texts_mergeSides, or_and_right]

/-! ## Names that are demanded -/

theorem distinct_demand {fields : List Field} (hd : DistinctTexts fields) (name : Scalar)
    (description : String) : DistinctTexts (demand fields name description) := by
  unfold demand
  split <;> exact hd.put _

/-- Under a demanded text stands what stood there, demanded, or a new text. -/
theorem find?_demand_self (fields : List Field) (s description : String) :
    find? (demand fields (.text s) description) (.text s) =
      some (demanded ((find? fields (.text s)).getD
        (leaf { name := .text s, description := description }))) := by
  unfold demand
  cases hfound : find? fields (.text s) with
  | none =>
    rw [find?_put]
    exact if_pos rfl
  | some f =>
    rw [find?_put]
    exact if_pos (find?_text_some hfound).2

theorem find?_demand_of_ne {name : Scalar} {s : String} (hne : name ≠ .text s)
    (fields : List Field) (description : String) :
    find? (demand fields name description) (.text s) = find? fields (.text s) := by
  unfold demand
  cases hfound : find? fields name with
  | none =>
    rw [find?_put]
    exact if_neg hne
  | some f =>
    rw [find?_put]
    refine if_neg fun hname => hne ?_
    have hsame := find?_same hfound
    rwa [show f.name = .text s from hname, Scalar.text_same_iff] at hsame

theorem allTexts_demand (fields : List Field) (name : Scalar) (description : String) :
    AllTexts (demand fields name description) ↔ AllTexts fields ∧ name.isText = true := by
  unfold demand
  cases hfound : find? fields name with
  | none => exact allTexts_put _ _
  | some f =>
    rw [allTexts_put, ← isText_eq_of_same (find?_same hfound)]
    exact Iff.rfl

/-- Demands the fields of several names, one after another. -/
def demandEach (fields : List Field) (wanted : List (Scalar × String)) : List Field :=
  wanted.foldl (fun fs p => demand fs p.1 p.2) fields

theorem distinct_demandEach {wanted : List (Scalar × String)} :
    ∀ {fields : List Field}, DistinctTexts fields → DistinctTexts (demandEach fields wanted) := by
  induction wanted with
  | nil => exact fun hd => hd
  | cons p rest ih => exact fun hd => ih (distinct_demand hd p.1 p.2)

theorem find?_demandEach_of_not_mem {wanted : List (Scalar × String)} {s : String} :
    ∀ {fields : List Field}, .text s ∉ wanted.map Prod.fst →
      find? (demandEach fields wanted) (.text s) = find? fields (.text s) := by
  induction wanted with
  | nil => exact fun _ => rfl
  | cons p rest ih =>
    intro fields hnot
    rw [List.map_cons, List.mem_cons, not_or] at hnot
    exact (ih hnot.2).trans (find?_demand_of_ne (Ne.symm hnot.1) fields p.2)

/-- Of names that are demanded once each, each has what stood there, demanded, or a new text. -/
theorem find?_demandEach_self {wanted : List (Scalar × String)} {s description : String} :
    ∀ {fields : List Field}, (wanted.map Prod.fst).Nodup → (.text s, description) ∈ wanted →
      find? (demandEach fields wanted) (.text s) =
        some (demanded ((find? fields (.text s)).getD
          (leaf { name := .text s, description := description }))) := by
  induction wanted with
  | nil => exact nofun
  | cons p rest ih =>
    intro fields hnodup hmem
    rw [List.map_cons, List.nodup_cons] at hnodup
    rcases List.mem_cons.1 hmem with rfl | hmem
    · exact (find?_demandEach_of_not_mem hnodup.1).trans (find?_demand_self fields s description)
    · have hne : p.1 ≠ .text s := fun h => hnodup.1 (h ▸ List.mem_map_of_mem hmem)
      have hfound := @ih (demand fields p.1 p.2) hnodup.2 hmem
      rwa [find?_demand_of_ne hne] at hfound

theorem allTexts_demandEach {wanted : List (Scalar × String)} :
    ∀ {fields : List Field}, AllTexts (demandEach fields wanted) ↔
      AllTexts fields ∧ ∀ p ∈ wanted, p.1.isText = true := by
  induction wanted with
  | nil => simp [demandEach]
  | cons p rest ih =>
    intro fields
    rw [demandEach, List.foldl_cons, ← demandEach, ih, List.forall_mem_cons, allTexts_demand,
      and_assoc]

/-! ## The merge of an order -/

theorem mergeOrder_eq (input output : List Field) :
    mergeOrder input output = sortByName (demandEach (mergeSides input output) orderFields) := rfl

theorem distinct_mergeOrder (input output : List Field) :
    DistinctTexts (mergeOrder input output) := by
  rw [mergeOrder_eq]
  exact (distinct_demandEach (distinct_mergeSides input output)).perm (sortByName_perm _).symm

/-- The names that every order has. -/
def orderNames : List Scalar := orderFields.map Prod.fst

theorem find?_mergeOrder_wanted {s description : String}
    (h : (.text s, description) ∈ orderFields) (input output : List Field) :
    find? (mergeOrder input output) (.text s) =
      some (demanded ((find? (mergeSides input output) (.text s)).getD
        (leaf { name := .text s, description := description }))) := by
  rw [mergeOrder_eq, find?_sortByName (distinct_demandEach (distinct_mergeSides input output))]
  exact find?_demandEach_self (by decide) h

theorem exists_description {s : String} (h : .text s ∈ orderNames) :
    ∃ description, (.text s, description) ∈ orderFields := by
  obtain ⟨⟨name, description⟩, hp, rfl⟩ := List.mem_map.1 h
  exact ⟨description, hp⟩

/-- Under a name that every order has stands a field that must be given. -/
theorem find?_mergeOrder_of_mem {s : String} (hs : .text s ∈ orderNames)
    (input output : List Field) :
    ∃ f, find? (mergeOrder input output) (.text s) = some (demanded f) := by
  obtain ⟨description, hmem⟩ := exists_description hs
  exact ⟨_, find?_mergeOrder_wanted hmem input output⟩

/-- Under any other name stands what the input and the output have there. -/
theorem find?_mergeOrder_of_not_mem {input output : List Field} (hinput : DistinctTexts input)
    (houtput : DistinctTexts output) {s : String} (hs : .text s ∉ orderNames) :
    find? (mergeOrder input output) (.text s) =
      orderedField? (find? input (.text s)) (find? output (.text s)) := by
  rw [mergeOrder_eq, find?_sortByName (distinct_demandEach (distinct_mergeSides input output)),
    find?_demandEach_of_not_mem hs, find?_mergeSides hinput houtput]

/-! ## Its names -/

theorem orderNames_texts : ∀ name ∈ orderNames, name.isText = true := by decide

/-- The names of an order are texts exactly if those of its input and of its output are. -/
theorem allTexts_mergeOrder {input output : List Field} :
    AllTexts (mergeOrder input output) ↔ AllTexts input ∧ AllTexts output := by
  have hwanted : ∀ p ∈ orderFields, p.1.isText = true := by decide
  rw [mergeOrder_eq, allTexts_perm (sortByName_perm _), allTexts_demandEach, allTexts_mergeSides,
    and_iff_left hwanted]

theorem ascending_mergeOrder {input output : List Field} (hinput : AllTexts input)
    (houtput : AllTexts output) : Ascending (mergeOrder input output) := by
  have htexts := allTexts_mergeOrder.2 ⟨hinput, houtput⟩
  rw [mergeOrder_eq] at htexts ⊢
  exact ascending_sortByName ((allTexts_perm (sortByName_perm _)).1 htexts)
    (distinct_demandEach (distinct_mergeSides input output))

/-- The names of an order are those of its input, those of its output and those of every order. -/
theorem mem_texts_mergeOrder {input output : List Field} (hinput : DistinctTexts input)
    (houtput : DistinctTexts output) {s : String} :
    s ∈ texts (mergeOrder input output) ↔
      s ∈ texts input ∨ s ∈ texts output ∨ .text s ∈ orderNames := by
  rw [← find?_isSome_iff]
  by_cases hs : .text s ∈ orderNames
  · obtain ⟨f, hf⟩ := find?_mergeOrder_of_mem hs input output
    simp [hf, hs]
  · rw [find?_mergeOrder_of_not_mem hinput houtput hs, ← find?_isSome_iff, ← find?_isSome_iff]
    cases find? input (.text s) <;> cases find? output (.text s) <;> simp [orderedField?, hs]

end Field

end ApiModels
