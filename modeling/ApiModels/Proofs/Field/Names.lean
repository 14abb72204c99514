/-
ApiModels.Proofs.Field.Names — fields found by names that are texts.

A name that is a text is found only by itself, while a number may be found
by a truth value. So it is texts that the facts here are about: which texts
a list has as names (`texts`), that none is there twice (`DistinctTexts`),
and what is found under a text after fields were put in or sorted.

Fields that are all named by texts, no two by the same one, stand in strictly
increasing order once they are sorted (`ascending_sortByName`), and in that
order they can stand in one way only (`Ascending.ext`).
-/
import ApiModels.Field.Basic
import ApiModels.Field.Status
import ApiModels.Proofs.Value.Sorting

namespace ApiModels

namespace Scalar

theorem eq_text_of_text? {name : Scalar} {s : String} (h : name.text? = some s) :
    name = .text s := by
  cases name <;> simp_all [text?]

theorem isText_iff {τ : Type} {name : Scalar τ} : name.isText = true ↔ ∃ s, name = .text s := by
  cases name <;> simp [isText, text?]

theorem same_text_iff {τ : Type} [DecidableEq τ] {name : Scalar τ} {s : τ} :
    name.same (.text s) = true ↔ name = .text s := by
  cases name <;> simp [same, number?]

theorem text_same_iff {name : Scalar} {s : String} :
    same (.text s) name = true ↔ name = .text s := by
  cases name with
  | text t =>
    rw [same_text, beq_iff_eq, text.injEq]
    exact eq_comm
  | _ => simp [same, number?]

/-- Statements that hold of no names but texts agree if they do on texts. -/
theorem iff_of_texts {P Q : Scalar → Prop} (hP : ∀ name, P name → name.isText = true)
    (hQ : ∀ name, Q name → name.isText = true) (h : ∀ s, P (.text s) ↔ Q (.text s))
    (name : Scalar) : P name ↔ Q name := by
  constructor
  · intro hname
    obtain ⟨s, rfl⟩ := isText_iff.1 (hP name hname)
    exact (h s).1 hname
  · intro hname
    obtain ⟨s, rfl⟩ := isText_iff.1 (hQ name hname)
    exact (h s).2 hname

/-- A text is among names just if it is one of them. -/
theorem isAmong_iff_of_isText {name : Scalar} (h : name.isText = true) {names : List Scalar} :
    name.isAmong names = true ↔ name ∈ names := by
  obtain ⟨s, rfl⟩ := isText_iff.1 h
  rw [isAmong, List.any_eq_true]
  simp only [same_text_iff, exists_eq_right]

end Scalar

namespace Field

/-- The names that are texts. -/
def texts (fields : List Field) : List String :=
  fields.filterMap fun f => f.name.text?

/-- No two fields are named by one text. -/
def DistinctTexts (fields : List Field) : Prop := (texts fields).Nodup

theorem mem_texts {fields : List Field} {s : String} :
    s ∈ texts fields ↔ ∃ f ∈ fields, f.name = .text s := by
  unfold texts
  rw [List.mem_filterMap]
  refine exists_congr fun f => and_congr_right fun _ => ⟨Scalar.eq_text_of_text?, ?_⟩
  intro h
  rw [h]
  rfl

theorem text_mem_names_iff {fields : List Field} {s : String} :
    .text s ∈ names fields ↔ s ∈ texts fields := by
  rw [mem_texts]
  exact List.mem_map

theorem mem_texts_cons {f : Field} {fs : List Field} {s : String} :
    s ∈ texts (f :: fs) ↔ f.name = .text s ∨ s ∈ texts fs := by
  simp only [mem_texts, List.mem_cons, or_and_right, exists_or, exists_eq_left]

theorem mem_texts_append {fs gs : List Field} {s : String} :
    s ∈ texts (fs ++ gs) ↔ s ∈ texts fs ∨ s ∈ texts gs := by
  simp only [mem_texts, List.mem_append, or_and_right, exists_or]

theorem mem_texts_perm {fields fields' : List Field} (hperm : fields.Perm fields') {s : String} :
    s ∈ texts fields ↔ s ∈ texts fields' :=
  (hperm.filterMap _).mem_iff

theorem texts_eq_filterMap (fields : List Field) :
    texts fields = (names fields).filterMap Scalar.text? := by
  rw [names, List.filterMap_map]
  rfl

theorem texts_of_names_eq {fields fields' : List Field} (h : names fields = names fields') :
    texts fields = texts fields' := by
  rw [texts_eq_filterMap, texts_eq_filterMap, h]

theorem DistinctTexts.of_names_perm {fields fields' : List Field} (h : DistinctTexts fields)
    (hperm : (names fields).Perm (names fields')) : DistinctTexts fields' := by
  rw [DistinctTexts, texts_eq_filterMap] at h ⊢
  exact (hperm.filterMap _).nodup_iff.1 h

theorem DistinctTexts.perm {fields fields' : List Field} (h : DistinctTexts fields)
    (hperm : fields.Perm fields') : DistinctTexts fields' :=
  (hperm.filterMap _).nodup_iff.1 h

theorem sortByName_perm (fields : List Field) : (sortByName fields).Perm fields :=
  sortedBy_perm _ _

theorem mem_sortByName {fields : List Field} {f : Field} : f ∈ sortByName fields ↔ f ∈ fields :=
  (sortByName_perm fields).mem_iff

theorem sortByName_ne_nil {fields : List Field} (h : fields ≠ []) : sortByName fields ≠ [] :=
  fun hnil => h (hnil ▸ sortByName_perm fields).nil_eq.symm

/-! ## Finding -/

theorem find?_same {fields : List Field} {name : Scalar} {f : Field}
    (h : find? fields name = some f) : f.name.same name = true := by
  unfold find? at h
  simpa using List.find?_some h

theorem find?_text_some {fields : List Field} {s : String} {f : Field}
    (h : find? fields (.text s) = some f) : f ∈ fields ∧ f.name = .text s :=
  ⟨List.mem_of_find?_eq_some h, Scalar.same_text_iff.1 (find?_same h)⟩

theorem find?_isSome_iff {fields : List Field} {s : String} :
    (find? fields (.text s)).isSome = true ↔ s ∈ texts fields := by
  unfold find?
  rw [List.find?_isSome, mem_texts]
  simp only [Scalar.same_text_iff]

theorem find?_cons_text (f : Field) (fs : List Field) (s : String) :
    find? (f :: fs) (.text s) = if f.name = .text s then some f else find? fs (.text s) := by
  unfold find?
  rw [List.find?_cons]
  split
  · rename_i h
    rw [if_pos (Scalar.same_text_iff.1 h)]
  · rename_i h
    rw [if_neg]
    intro hf
    rw [hf] at h
    simp at h

theorem texts_cons_text {f : Field} {s : String} (h : f.name = .text s) (fs : List Field) :
    texts (f :: fs) = s :: texts fs := by
  simp [texts, h, Scalar.text?]

theorem texts_cons_other {f : Field} (h : f.name.text? = none) (fs : List Field) :
    texts (f :: fs) = texts fs := by
  simp [texts, h]

theorem DistinctTexts.tail {f : Field} {fs : List Field} (h : DistinctTexts (f :: fs)) :
    DistinctTexts fs :=
  h.sublist ((List.sublist_cons_self f fs).filterMap _)

theorem find?_text_iff {fields : List Field} (hd : DistinctTexts fields) {s : String} {f : Field} :
    find? fields (.text s) = some f ↔ f ∈ fields ∧ f.name = .text s := by
  refine ⟨find?_text_some, ?_⟩
  rintro ⟨hf, hname⟩
  induction fields with
  | nil => cases hf
  | cons g gs ih =>
    rw [find?_cons_text]
    rcases List.mem_cons.1 hf with rfl | hf
    · rw [if_pos hname]
    · have hmem : s ∈ texts gs := mem_texts.2 ⟨f, hf, hname⟩
      split
      · rename_i hg
        rw [DistinctTexts, texts_cons_text hg, List.nodup_cons] at hd
        exact absurd hmem hd.1
      · exact ih hd.tail hf

/-- Nothing is found under a text that names no field. -/
theorem find?_eq_none {fields : List Field} {s : String} (h : .text s ∉ names fields) :
    find? fields (.text s) = none := by
  rw [← Option.not_isSome_iff_eq_none, find?_isSome_iff, mem_texts]
  rintro ⟨f, hf, hname⟩
  exact h (hname ▸ List.mem_map_of_mem hf)

/-- Where texts are distinct, what is found does not depend on the order. -/
theorem find?_perm {fields fields' : List Field} (hd : DistinctTexts fields)
    (hperm : fields.Perm fields') (s : String) :
    find? fields (.text s) = find? fields' (.text s) := by
  refine Option.ext fun f => ?_
  rw [find?_text_iff hd, find?_text_iff (hd.perm hperm), hperm.mem_iff]

theorem find?_sortByName {fields : List Field} (hd : DistinctTexts fields) (s : String) :
    find? (sortByName fields) (.text s) = find? fields (.text s) :=
  (find?_perm hd (sortByName_perm fields).symm s).symm

theorem findLast?_text {fields : List Field} (hd : DistinctTexts fields) (s : String) :
    findLast? fields (.text s) = find? fields (.text s) :=
  (find?_perm hd (List.reverse_perm fields).symm s).symm

theorem find?_append_text (fs gs : List Field) (s : String) :
    find? (fs ++ gs) (.text s) = (find? fs (.text s)).or (find? gs (.text s)) :=
  List.find?_append

/-- Where texts are distinct, a field that is found is the only one of its name. -/
theorem filter_same_text {fields : List Field} (hd : DistinctTexts fields) {s : String} {f : Field}
    (h : find? fields (.text s) = some f) :
    (fields.filter fun g => g.name.same (.text s)) = [f] := by
  induction fields with
  | nil => cases h
  | cons g gs ih =>
    rw [find?_cons_text] at h
    by_cases hg : g.name = .text s
    · rw [if_pos hg] at h
      cases h
      rw [DistinctTexts, texts_cons_text hg, List.nodup_cons] at hd
      have hothers : (gs.filter fun k => k.name.same (.text s)) = [] := by
        rw [List.filter_eq_nil_iff]
        intro k hk hsame
        exact hd.1 (mem_texts.2 ⟨k, hk, Scalar.same_text_iff.1 hsame⟩)
      simp only [List.filter_cons, Scalar.same_text_iff.2 hg, hothers, if_true]
    · have hother : g.name.same (.text s) = false :=
        Bool.eq_false_iff.2 fun hsame => hg (Scalar.same_text_iff.1 hsame)
      rw [if_neg hg] at h
      simp only [List.filter_cons, hother, Bool.false_eq_true, if_false]
      exact ih hd.tail h

theorem texts_append (fs gs : List Field) : texts (fs ++ gs) = texts fs ++ texts gs :=
  List.filterMap_append

/-- Fields that have no text in common with others leave texts distinct. -/
theorem DistinctTexts.append {fs gs : List Field} (hfs : DistinctTexts fs) (hgs : DistinctTexts gs)
    (hnew : ∀ s ∈ texts gs, s ∉ texts fs) : DistinctTexts (fs ++ gs) := by
  rw [DistinctTexts, texts_append]
  refine List.nodup_append.2 ⟨hfs, hgs, ?_⟩
  rintro s hs t ht rfl
  exact hnew s ht hs

/-- A field whose name is new, if it is a text, leaves texts distinct. -/
theorem DistinctTexts.concat {fields : List Field} (hd : DistinctTexts fields) {f : Field}
    (hnew : ∀ s, f.name = .text s → s ∉ texts fields) : DistinctTexts (fields ++ [f]) := by
  refine hd.append ?_ fun s hs => ?_
  · cases hf : f.name.text? with
    | none => simp [DistinctTexts, texts, hf]
    | some s => simp [DistinctTexts, texts, hf]
  · obtain ⟨g, hg, hname⟩ := mem_texts.1 hs
    exact hnew s (List.mem_singleton.1 hg ▸ hname)

/-! ## Putting in -/

theorem mem_put {f g : Field} {fields : List Field} (h : g ∈ put fields f) :
    g = f ∨ g ∈ fields := by
  induction fields with
  | nil => exact .inl (List.mem_singleton.1 h)
  | cons k ks ih =>
    rw [put] at h
    split at h
    · rcases List.mem_cons.1 h with rfl | h
      · exact .inl rfl
      · exact .inr (List.mem_cons_of_mem _ h)
    · rcases List.mem_cons.1 h with rfl | h
      · exact .inr List.mem_cons_self
      · exact (ih h).imp id (List.mem_cons_of_mem _)

theorem put_ne_nil (fields : List Field) (f : Field) : put fields f ≠ [] := by
  cases fields with
  | nil => nofun
  | cons g gs =>
    rw [put]
    split <;> nofun

/-- A field that is put in takes the place of the one that has its text as a name. -/
theorem find?_put (fields : List Field) (f : Field) (s : String) :
    find? (put fields f) (.text s) =
      if f.name = .text s then some f else find? fields (.text s) := by
  induction fields with
  | nil => rw [put, find?_cons_text]
  | cons k ks ih =>
    rw [put]
    split
    · rename_i hsame
      rw [find?_cons_text, find?_cons_text]
      split
      · rfl
      · rename_i hf
        rw [if_neg]
        intro hk
        rw [hk, Scalar.text_same_iff] at hsame
        exact hf hsame
    · rename_i hsame
      rw [find?_cons_text, find?_cons_text, ih]
      split
      · rename_i hk
        rw [if_neg]
        intro hf
        rw [hk, hf] at hsame
        exact hsame (by simp)
      · rfl

theorem mem_texts_put {fields : List Field} {f : Field} {s : String} :
    s ∈ texts (put fields f) ↔ f.name = .text s ∨ s ∈ texts fields := by
  rw [← find?_isSome_iff, ← find?_isSome_iff, find?_put]
  split
  · simp_all
  · simp_all

theorem DistinctTexts.put {fields : List Field} (hd : DistinctTexts fields) (f : Field) :
    DistinctTexts (put fields f) := by
  induction fields with
  | nil =>
    cases hf : f.name.text? with
    | none => rw [Field.put, DistinctTexts, texts_cons_other hf]; exact hd
    | some s =>
      rw [Field.put, DistinctTexts, texts_cons_text (Scalar.eq_text_of_text? hf)]
      exact List.nodup_cons.2 ⟨nofun, List.nodup_nil⟩
  | cons k ks ih =>
    rw [Field.put]
    split
    · rename_i hsame
      cases hf : f.name.text? with
      | none => rw [DistinctTexts, texts_cons_other hf]; exact hd.tail
      | some s =>
        have hname := Scalar.eq_text_of_text? hf
        rw [hname, Scalar.same_text_iff] at hsame
        rw [DistinctTexts, texts_cons_text hsame] at hd
        rwa [DistinctTexts, texts_cons_text hname]
    · rename_i hsame
      cases hk : k.name.text? with
      | none => rw [DistinctTexts, texts_cons_other hk]; exact ih hd.tail
      | some s =>
        have hname := Scalar.eq_text_of_text? hk
        have htail := ih hd.tail
        rw [DistinctTexts, texts_cons_text hname, List.nodup_cons] at hd ⊢
        refine ⟨fun hmem => ?_, htail⟩
        rcases mem_texts_put.1 hmem with hf | hmem
        · rw [hname, hf] at hsame
          exact hsame (by simp)
        · exact hd.1 hmem

/-! ## By name -/

theorem mem_byName {f : Field} {fields : List Field} (h : f ∈ byName fields) : f ∈ fields := by
  refine List.foldlRecOn (motive := fun kept => ∀ g ∈ kept, g ∈ fields) fields put
    (by simp) ?_ f h
  intro kept hkept g hg k hk
  rcases mem_put hk with rfl | hk
  · exact hg
  · exact hkept k hk

theorem distinct_byName (fields : List Field) : DistinctTexts (byName fields) :=
  List.foldlRecOn fields put List.nodup_nil fun _ h g _ => h.put g

theorem byName_ne_nil {fields : List Field} (h : fields ≠ []) : byName fields ≠ [] := by
  cases fields with
  | nil => exact absurd rfl h
  | cons f fs =>
    exact List.foldlRecOn (motive := (· ≠ [])) fs put (put_ne_nil [] f)
      fun kept _ g _ => put_ne_nil kept g

theorem mem_texts_byName {fields : List Field} {s : String} :
    s ∈ texts (byName fields) ↔ s ∈ texts fields := by
  have hfold : ∀ gs kept : List Field,
      s ∈ texts (gs.foldl Field.put kept) ↔ s ∈ texts kept ∨ s ∈ texts gs := by
    intro gs
    induction gs with
    | nil => simp [texts]
    | cons g gs ih =>
      intro kept
      rw [List.foldl_cons, ih, mem_texts_put, mem_texts_cons, or_assoc, or_left_comm]
  unfold byName
  rw [hfold]
  simp [texts]

theorem find?_byName {fields : List Field} (hd : DistinctTexts fields) (s : String) :
    find? (byName fields) (.text s) = find? fields (.text s) := by
  refine Option.ext fun f => ?_
  constructor
  · intro h
    obtain ⟨hf, hname⟩ := find?_text_some h
    exact (find?_text_iff hd).2 ⟨mem_byName hf, hname⟩
  · intro h
    obtain ⟨hf, hname⟩ := find?_text_some h
    have hmem := mem_texts_byName.2 (mem_texts.2 ⟨f, hf, hname⟩)
    obtain ⟨g, hg⟩ := Option.isSome_iff_exists.1 (find?_isSome_iff.2 hmem)
    obtain ⟨hg', hname'⟩ := find?_text_some hg
    have heq : find? fields (.text s) = some g := (find?_text_iff hd).2 ⟨mem_byName hg', hname'⟩
    rw [hg, ← h, heq]

end Field

/-! ## In order -/

namespace Scalar

/-- Two names are texts, and the first one comes before the second. -/
def Precedes (a b : Scalar) : Prop := ∃ s t, a = .text s ∧ b = .text t ∧ s < t

theorem Precedes.asymm {a b : Scalar} (hab : a.Precedes b) : ¬ b.Precedes a := by
  obtain ⟨s, t, rfl, rfl, hst⟩ := hab
  rintro ⟨_, _, ht, hs, hts⟩
  cases ht
  cases hs
  exact String.lt_asymm hst hts

/-- Whether two names are texts of which the first one comes before the second. -/
instance : DecidableRel Precedes := fun a b =>
  match ha : a.text?, hb : b.text? with
  | some s, some t => decidable_of_iff (s < t) (by
      rw [eq_text_of_text? ha, eq_text_of_text? hb]
      exact ⟨fun h => ⟨s, t, rfl, rfl, h⟩, fun ⟨_, _, hs, ht, h⟩ => by cases hs; cases ht; exact h⟩)
  | none, _ => isFalse (by
      rintro ⟨s, _, rfl, -⟩
      cases ha)
  | some _, none => isFalse (by
      rintro ⟨_, t, -, rfl, -⟩
      cases hb)

theorem isText_of_comparable_text {s : String} {name : Scalar}
    (h : comparable (.text s) name = true) : name.isText = true := by
  cases name <;> simp_all [comparable, number?, isText, text?]

theorem isText_of_text_comparable {s : String} {name : Scalar}
    (h : comparable name (.text s) = true) : name.isText = true := by
  cases name <;> simp_all [comparable, number?, isText, text?]

/-- Of names that can be put in order, all are texts if one is. -/
theorem isText_of_allComparable {scalars : List Scalar} (h : allComparable scalars = true)
    {name : Scalar} (hname : name ∈ scalars) (htext : name.isText = true) :
    ∀ other ∈ scalars, other.isText = true := by
  cases scalars with
  | nil => exact nofun
  | cons a as =>
    have hrest : ∀ b ∈ as, a.comparable b = true := List.all_eq_true.1 h
    have hfirst : a.isText = true := by
      rcases List.mem_cons.1 hname with rfl | hname
      · exact htext
      · obtain ⟨s, rfl⟩ := isText_iff.1 htext
        exact isText_of_text_comparable (hrest _ hname)
    obtain ⟨s, rfl⟩ := isText_iff.1 hfirst
    exact List.forall_mem_cons.2 ⟨hfirst, fun b hb => isText_of_comparable_text (hrest b hb)⟩

end Scalar

/-- The comparison of texts ranks whatever has a text as its key. -/
theorem ranks_of_textKey {α : Type} (keyOf : α → Scalar) :
    Ranks (fun a b => (keyOf a).isBelow (keyOf b)) fun a => (keyOf a).isText = true where
  asymm := by
    intro a b ha hb hab
    obtain ⟨s, hs⟩ := Scalar.isText_iff.1 ha
    obtain ⟨t, ht⟩ := Scalar.isText_iff.1 hb
    rw [hs, ht] at hab ⊢
    exact not_below_iff.2 (Std.le_of_lt (of_decide_eq_true hab))
  trans := by
    intro a b c ha hb hc hba hcb
    obtain ⟨s, hs⟩ := Scalar.isText_iff.1 ha
    obtain ⟨t, ht⟩ := Scalar.isText_iff.1 hb
    obtain ⟨u, hu⟩ := Scalar.isText_iff.1 hc
    rw [hs, ht] at hba
    rw [ht, hu] at hcb
    rw [hs, hu]
    exact not_below_iff.2 (String.le_trans (not_below_iff.1 hba) (not_below_iff.1 hcb))

/-- Where all keys are texts and no two the same, those of a sorted list strictly increase. -/
theorem precedes_sortedBy {α : Type} {keyOf : α → Scalar} {l : List α}
    (htexts : ∀ a ∈ l, (keyOf a).isText = true)
    (hdistinct : (l.filterMap fun a => (keyOf a).text?).Nodup) :
    ((sortedBy (fun a b => (keyOf a).isBelow (keyOf b)) l).map keyOf).Pairwise
      Scalar.Precedes := by
  have hperm := sortedBy_perm (fun a b => (keyOf a).isBelow (keyOf b)) l
  have hordered := sortedBy_pairwise (ranks_of_textKey keyOf) htexts
  have hnodup := List.pairwise_filterMap.1 ((hperm.filterMap _).nodup_iff.2 hdistinct)
  rw [List.pairwise_map]
  refine (hordered.and hnodup).imp_of_mem ?_
  rintro a b ha hb ⟨hba, hne⟩
  obtain ⟨s, hs⟩ := Scalar.isText_iff.1 (htexts a (hperm.mem_iff.1 ha))
  obtain ⟨t, ht⟩ := Scalar.isText_iff.1 (htexts b (hperm.mem_iff.1 hb))
  simp only [hs, ht] at hba
  have hst : s ≠ t := hne s (by rw [hs]; rfl) t (by rw [ht]; rfl)
  exact ⟨s, t, hs, ht, Std.lt_of_le_of_ne (not_below_iff.1 hba) hst⟩

namespace Field

/-- All fields are named by texts. -/
def AllTexts (fields : List Field) : Prop := ∀ f ∈ fields, f.name.isText = true

/-- The names of fields are texts in strictly increasing order. -/
def Ascending (fields : List Field) : Prop := (names fields).Pairwise Scalar.Precedes

/-- Names that are texts stand among no others, and strictly increase. -/
def Orderly (fields : List Field) : Prop :=
  (∃ f ∈ fields, f.name.isText = true) → AllTexts fields ∧ Ascending fields

theorem text?_eq_of_same {a b : Scalar} (h : a.same b = true) : a.text? = b.text? := by
  cases ha : a.text? with
  | some s =>
    obtain rfl := Scalar.eq_text_of_text? ha
    rw [Scalar.text_same_iff.1 h]
    rfl
  | none =>
    cases hb : b.text? with
    | none => rfl
    | some s =>
      obtain rfl := Scalar.eq_text_of_text? hb
      rw [Scalar.same_text_iff.1 h] at ha
      cases ha

theorem isText_eq_of_same {a b : Scalar} (h : a.same b = true) : a.isText = b.isText :=
  congrArg Option.isSome (text?_eq_of_same h)

theorem allTexts_cons {f : Field} {fs : List Field} :
    AllTexts (f :: fs) ↔ f.name.isText = true ∧ AllTexts fs := by
  simp [AllTexts]

theorem allTexts_perm {fields fields' : List Field} (hperm : fields.Perm fields') :
    AllTexts fields ↔ AllTexts fields' :=
  forall_congr' fun _ => imp_congr_left hperm.mem_iff

theorem AllTexts.isText {fields : List Field} (h : AllTexts fields) {name : Scalar}
    (hname : name ∈ names fields) : name.isText = true := by
  obtain ⟨f, hf, rfl⟩ := List.mem_map.1 hname
  exact h f hf

theorem orderly_nil : Orderly [] := by
  rintro ⟨f, hf, -⟩
  cases hf

theorem Orderly.ascending {fields : List Field} (h : Orderly fields) (htexts : AllTexts fields) :
    Ascending fields := by
  cases fields with
  | nil => exact .nil
  | cons f fs => exact (h ⟨f, List.mem_cons_self, htexts f List.mem_cons_self⟩).2

theorem Ascending.distinct {fields : List Field} (h : Ascending fields) :
    DistinctTexts fields := by
  rw [DistinctTexts, texts_eq_filterMap, List.Nodup, List.pairwise_filterMap]
  refine h.imp ?_
  rintro a b ⟨s, t, rfl, rfl, hst⟩ s' hs' t' ht' rfl
  cases hs'
  cases ht'
  exact String.lt_irrefl _ hst

/-- Fields that stand in ascending order stand in no other one. -/
theorem Ascending.eq_of_perm {fs gs : List Field} (hfs : Ascending fs) (hgs : Ascending gs)
    (hperm : fs.Perm gs) : fs = gs := by
  refine List.Perm.eq_of_pairwise ?_ (List.pairwise_map.1 hfs) (List.pairwise_map.1 hgs) hperm
  exact fun f g _ _ hfg hgf => absurd hgf hfg.asymm

/-- Lists in ascending order that have the same fields are the same. -/
theorem Ascending.ext {fs gs : List Field} (hfs : Ascending fs) (hgs : Ascending gs)
    (h : ∀ f, f ∈ fs ↔ f ∈ gs) : fs = gs := by
  have hnodup : ∀ {hs : List Field}, Ascending hs → hs.Nodup := by
    intro hs hascending
    refine (List.pairwise_map.1 hascending).imp fun hfg => ?_
    rintro rfl
    exact hfg.asymm hfg
  exact hfs.eq_of_perm hgs ((List.perm_ext_iff_of_nodup (hnodup hfs) (hnodup hgs)).2 h)

/-- Lists in ascending order with the same names are the same, if fields of one name are. -/
theorem Ascending.ext_names {fs gs : List Field} (hfs : Ascending fs) (hgs : Ascending gs)
    (hnames : ∀ name, name ∈ names fs ↔ name ∈ names gs)
    (hsame : ∀ f ∈ fs, ∀ g ∈ gs, f.name = g.name → f = g) : fs = gs := by
  refine hfs.ext hgs fun f => ⟨fun hf => ?_, fun hf => ?_⟩
  · obtain ⟨g, hg, hname⟩ := List.mem_map.1 ((hnames f.name).1 (List.mem_map_of_mem hf))
    exact hsame f hf g hg hname.symm ▸ hg
  · obtain ⟨g, hg, hname⟩ := List.mem_map.1 ((hnames f.name).2 (List.mem_map_of_mem hf))
    exact hsame g hg f hf hname ▸ hg

/-- Lists in ascending order that have the same field under each text are the same. -/
theorem Ascending.ext_find? {fs gs : List Field} (hfs : Ascending fs) (hgs : Ascending gs)
    (htfs : AllTexts fs) (htgs : AllTexts gs)
    (h : ∀ s, find? fs (.text s) = find? gs (.text s)) : fs = gs := by
  have hsub : ∀ {fs gs : List Field}, Ascending fs → AllTexts fs →
      (∀ s, find? fs (.text s) = find? gs (.text s)) → ∀ f ∈ fs, f ∈ gs := by
    intro fs gs hfs htfs h f hf
    obtain ⟨s, hs⟩ := Scalar.isText_iff.1 (htfs f hf)
    exact (find?_text_some (h s ▸ (find?_text_iff hfs.distinct).2 ⟨hf, hs⟩)).1
  exact hfs.ext hgs fun f => ⟨hsub hfs htfs h f, hsub hgs htgs (fun s => (h s).symm) f⟩

theorem Orderly.distinct {fields : List Field} (h : Orderly fields) : DistinctTexts fields := by
  by_cases htext : ∃ f ∈ fields, f.name.isText = true
  · exact (h htext).2.distinct
  · have hnone : texts fields = [] := by
      refine List.eq_nil_iff_forall_not_mem.2 fun s hs => htext ?_
      obtain ⟨f, hf, hname⟩ := mem_texts.1 hs
      exact ⟨f, hf, hname ▸ rfl⟩
    rw [DistinctTexts, hnone]
    exact List.nodup_nil

/-- Where names are distinct texts, a name has one field. -/
theorem AllTexts.eq_of_name_eq {fields : List Field} (htexts : AllTexts fields)
    (hd : DistinctTexts fields) {f g : Field} (hf : f ∈ fields) (hg : g ∈ fields)
    (hname : f.name = g.name) : f = g := by
  obtain ⟨s, hs⟩ := Scalar.isText_iff.1 (htexts g hg)
  have hfound := (find?_text_iff hd).2 ⟨hf, hname.trans hs⟩
  rw [(find?_text_iff hd).2 ⟨hg, hs⟩] at hfound
  exact (Option.some.inj hfound).symm

theorem AllTexts.of_names_eq {fields fields' : List Field} (heq : names fields = names fields')
    (h : AllTexts fields) : AllTexts fields' := by
  intro f hf
  obtain ⟨g, hg, hname⟩ := List.mem_map.1 (heq ▸ List.mem_map_of_mem hf : f.name ∈ names fields)
  exact hname ▸ h g hg

/-- Fields named by distinct texts strictly increase once they are sorted. -/
theorem ascending_sortByName {fields : List Field} (htexts : AllTexts fields)
    (hdistinct : DistinctTexts fields) : Ascending (sortByName fields) :=
  precedes_sortedBy htexts hdistinct

/-- Fields in ascending order stay where they are when they are sorted. -/
theorem Ascending.sortByName_eq {fields : List Field} (htexts : AllTexts fields)
    (h : Ascending fields) : sortByName fields = fields :=
  (ascending_sortByName htexts h.distinct).eq_of_perm h (sortByName_perm fields)

/-- Orderly fields stay so when they are sorted once more. -/
theorem Orderly.sortByName {fields : List Field} (h : Orderly fields) :
    Orderly (sortByName fields) := by
  rintro ⟨f, hf, htext⟩
  have htexts := (h ⟨f, mem_sortByName.1 hf, htext⟩).1
  exact ⟨(allTexts_perm (sortByName_perm fields)).2 htexts,
    ascending_sortByName htexts h.distinct⟩

/-- Fields that are called as others are once these are sorted, all by distinct texts. -/
theorem orderly_of_names_eq {fields fields' : List Field}
    (heq : names fields = names (Field.sortByName fields')) (htexts : AllTexts fields)
    (hdistinct : DistinctTexts fields') : Orderly fields := by
  have htexts' := (allTexts_perm (sortByName_perm fields')).1 (htexts.of_names_eq heq)
  refine fun _ => ⟨htexts, ?_⟩
  rw [Ascending, heq]
  exact ascending_sortByName htexts' hdistinct

/-! ## Names that are distinct texts -/

/-- All fields are named by texts, no two by the same one. -/
def DistinctNames (fields : List Field) : Prop := AllTexts fields ∧ DistinctTexts fields

instance : DecidablePred DistinctNames := fun fields =>
  inferInstanceAs (Decidable ((∀ f ∈ fields, f.name.isText = true) ∧ (texts fields).Nodup))

theorem distinctNames_nil : DistinctNames [] := ⟨nofun, List.nodup_nil⟩

theorem DistinctNames.eq_of_name_eq {fields : List Field} (h : DistinctNames fields) {f g : Field}
    (hf : f ∈ fields) (hg : g ∈ fields) (hname : f.name = g.name) : f = g :=
  h.1.eq_of_name_eq h.2 hf hg hname

/-- All fields are named by texts, and these strictly increase. -/
def SortedTexts (fields : List Field) : Prop := AllTexts fields ∧ Ascending fields

instance : DecidablePred SortedTexts := fun fields =>
  inferInstanceAs (Decidable ((∀ f ∈ fields, f.name.isText = true) ∧
    (names fields).Pairwise Scalar.Precedes))

theorem sortedTexts_nil : SortedTexts [] := ⟨nofun, .nil⟩

end Field

end ApiModels
