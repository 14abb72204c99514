/-
ApiModels.Proofs.Document.Operations — the index of operations holds the
first occurrence of every id.

An `Occurrence` is a place where a document states an operation: an object
with an id under a method of a path item. `Operation.Stands` says which
occurrences there are, in words that know of no order; `Occurrence.Before` is
the order of paths and, within a path, of methods.

The index is made in one pass. `occurrences` lists what the pass comes to,
which is in order if the paths are (`occurrences_pairwise`), and `firsts`
keeps what has a new id. Looking an id up in what is kept is the same as in
the whole list (`find?_firsts`), so what is found is the least of its id
(`find?_eq_some_iff_least`). `Indexes` ties the operations of a document to
the occurrences that are kept.
-/
import ApiModels.Proofs.Document.Alike
import ApiModels.Text.Case
import Mathlib.Data.Set.Card
import Mathlib.Tactic.FinCases

namespace ApiModels

open ApiModels.Value (IsText IsObject)

/-- A place where a document states an operation with an id. -/
structure Occurrence where
  id : String
  path : String
  /-- The method, as the name of a member of the path item. -/
  method : String
  item : Members
  spec : Members

namespace Operation

/-- The methods as members are named by them. -/
def methodNames : List String := methods.map Prod.fst

/-- A path item has, under one of the methods, an object with an id that is not empty. -/
structure Stands (paths : Members) (c : Occurrence) : Prop where
  item : ∃ v, (.text c.path, v) ∈ paths ∧ v.membersOrNone = .ok c.item
  method : c.method ∈ methodNames
  spec : (c.item.get c.method).members? = some c.spec
  id : c.spec.get "operationId" = .text c.id
  nonempty : c.id ≠ ""

/-- Paths are keyed by texts, no path item has a key twice, and the ids of operations are texts. -/
structure TextIds (paths : Members) : Prop where
  keyed : paths.Keyed
  distinct : ∀ m ∈ paths, ∀ item, m.2.membersOrNone = .ok item → (item.map Prod.fst).Nodup
  ids : ∀ m ∈ paths, ∀ item, m.2.membersOrNone = .ok item → ∀ method ∈ methodNames, ∀ spec,
    (item.get method).members? = some spec → (Members.get spec "operationId").Optionally IsText

end Operation

namespace Occurrence

/-- An occurrence stands before another: under a lower path, or an earlier method of the same. -/
def Before (c d : Occurrence) : Prop :=
  c.path < d.path ∨
    c.path = d.path ∧ Operation.methodNames.idxOf c.method < Operation.methodNames.idxOf d.method

/-- The operation that an occurrence is indexed as, with the parameters its path item shares. -/
structure IndexedAs (c : Occurrence) (o : Operation) : Prop where
  id : o.id = .text c.id
  path : o.path = .text c.path
  method : o.method = Text.upper c.method
  spec : o.spec = c.spec
  shared : (c.item.get "parameters").itemsOrNone = .ok o.pathParameters

theorem Before.asymm {c d : Occurrence} (h : c.Before d) : ¬ d.Before c := by
  rintro (h' | ⟨heq, h'⟩) <;> rcases h with h | ⟨heq', h⟩
  · exact String.lt_asymm h h'
  · exact String.lt_irrefl _ (heq' ▸ h')
  · exact String.lt_irrefl _ (heq ▸ h)
  · omega

/-- An occurrence is indexed in one way. -/
theorem IndexedAs.unique {c : Occurrence} {o o' : Operation} (h : c.IndexedAs o)
    (h' : c.IndexedAs o') : o = o' := by
  obtain ⟨id, path, method, spec, shared⟩ := o
  obtain ⟨id', path', method', spec', shared'⟩ := o'
  obtain ⟨rfl, rfl, rfl, rfl, hshared⟩ := h
  obtain ⟨rfl, rfl, rfl, rfl, hshared'⟩ := h'
  cases hshared.symm.trans hshared'
  rfl

end Occurrence

/-! ## The first of a list -/

/-- In a list that is in order, what is found is the least of what is looked for. -/
theorem find?_eq_some_iff_least {α : Type} {R : α → α → Prop} (hR : ∀ {a b}, R a b → ¬ R b a)
    {l : List α} (hl : l.Pairwise R) {p : α → Bool} {a : α} :
    l.find? p = some a ↔ a ∈ l ∧ p a = true ∧ ∀ b ∈ l, p b = true → a = b ∨ R a b := by
  have hleast : ∀ {a}, l.find? p = some a → ∀ b ∈ l, p b = true → a = b ∨ R a b := by
    intro a ha b hb hpb
    obtain ⟨-, before, after, rfl, hbefore⟩ := List.find?_eq_some_iff_append.1 ha
    rcases List.mem_append.1 hb with hb | hb
    · have := hbefore b hb
      simp [hpb] at this
    · rcases List.mem_cons.1 hb with rfl | hb
      · exact .inl rfl
      · exact .inr ((List.pairwise_cons.1 (List.pairwise_append.1 hl).2.1).1 b hb)
  constructor
  · exact fun ha => ⟨List.mem_of_find?_eq_some ha, List.find?_some ha, hleast ha⟩
  · rintro ⟨ha, hpa, hfirst⟩
    obtain ⟨b, hb⟩ := Option.isSome_iff_exists.1 (List.find?_isSome.2 ⟨a, ha, hpa⟩)
    rcases hfirst b (List.mem_of_find?_eq_some hb) (List.find?_some hb) with rfl | hab
    · exact hb
    · rcases hleast hb a ha hpa with rfl | hba
      · exact hb
      · exact absurd hab (hR hba)

namespace Operation

/-! ## What the pass comes to -/

/-- What a path item states under a method. -/
def occurrence? (path : String) (item : Members) (method : String) : Option Occurrence :=
  match (item.get method).members? with
  | some spec =>
    match Members.get spec "operationId" with
    | .text id => if id.isEmpty then none else some ⟨id, path, method, item, spec⟩
    | _ => none
  | none => none

/-- What stands under a path, in the order of the methods. -/
def pathOccurrences (m : Scalar × Value) : List Occurrence :=
  match m.1, m.2.membersOrNone with
  | .text path, .ok item => methodNames.filterMap (occurrence? path item)
  | _, _ => []

/-- What stands under paths, in the order in which they are given. -/
def occurrences (paths : Members) : List Occurrence := paths.flatMap pathOccurrences

theorem occurrence?_eq_some_iff {path : String} {item : Members} {method : String}
    {c : Occurrence} :
    occurrence? path item method = some c ↔
      c.path = path ∧ c.item = item ∧ c.method = method ∧
        (item.get method).members? = some c.spec ∧
        c.spec.get "operationId" = .text c.id ∧ c.id ≠ "" := by
  obtain ⟨id, path', method', item', spec'⟩ := c
  unfold occurrence?
  constructor
  · intro h
    split at h
    · rename_i spec hspec
      split at h
      · rename_i id hid
        split at h
        · cases h
        · rename_i hne
          cases h
          exact ⟨rfl, rfl, rfl, hspec, hid, by simpa using hne⟩
      · cases h
    · cases h
  · rintro ⟨rfl, rfl, rfl, hspec, hid, hne⟩
    dsimp only at hspec hid hne
    simp only [hspec, hid]
    rw [if_neg (by simpa using hne)]

theorem mem_pathOccurrences {m : Scalar × Value} {c : Occurrence} :
    c ∈ pathOccurrences m ↔ m.1 = .text c.path ∧ m.2.membersOrNone = .ok c.item ∧
      ∃ method ∈ methodNames, occurrence? c.path c.item method = some c := by
  obtain ⟨key, v⟩ := m
  unfold pathOccurrences
  constructor
  · intro h
    split at h
    · rename_i path item hpath hitem
      obtain ⟨method, hmethod, hc⟩ := List.mem_filterMap.1 h
      obtain ⟨rfl, rfl, -⟩ := occurrence?_eq_some_iff.1 hc
      exact ⟨hpath, hitem, method, hmethod, hc⟩
    · cases h
  · rintro ⟨rfl, hitem, method, hmethod, hc⟩
    simp only [hitem]
    exact List.mem_filterMap.2 ⟨method, hmethod, hc⟩

theorem mem_occurrences {paths : Members} {c : Occurrence} :
    c ∈ occurrences paths ↔ Stands paths c := by
  rw [occurrences, List.mem_flatMap]
  constructor
  · rintro ⟨⟨_, v⟩, hv, hc⟩
    obtain ⟨rfl, hitem, method, hmethod, hc⟩ := mem_pathOccurrences.1 hc
    obtain ⟨-, -, rfl, hspec, hid, hne⟩ := occurrence?_eq_some_iff.1 hc
    exact ⟨⟨v, hv, hitem⟩, hmethod, hspec, hid, hne⟩
  · rintro ⟨⟨v, hv, hitem⟩, hmethod, hspec, hid, hne⟩
    refine ⟨_, hv, mem_pathOccurrences.2 ⟨rfl, hitem, c.method, hmethod, ?_⟩⟩
    exact occurrence?_eq_some_iff.2 ⟨rfl, rfl, rfl, hspec, hid, hne⟩

theorem pathOccurrences_pairwise (m : Scalar × Value) :
    (pathOccurrences m).Pairwise Occurrence.Before := by
  have hmethods : methodNames.Pairwise fun m n => methodNames.idxOf m < methodNames.idxOf n := by
    decide
  unfold pathOccurrences
  split
  · rw [List.pairwise_filterMap]
    refine hmethods.imp fun hlt c hc d hd => .inr ?_
    obtain ⟨hpath, -, rfl, -⟩ := occurrence?_eq_some_iff.1 hc
    obtain ⟨hpath', -, rfl, -⟩ := occurrence?_eq_some_iff.1 hd
    exact ⟨hpath.trans hpath'.symm, hlt⟩
  · exact .nil

/-- Under paths in order operations stand in order. -/
theorem occurrences_pairwise {paths : Members}
    (h : (paths.map Prod.fst).Pairwise Scalar.Precedes) :
    (occurrences paths).Pairwise Occurrence.Before := by
  rw [occurrences, List.pairwise_flatMap]
  refine ⟨fun m _ => pathOccurrences_pairwise m, (List.pairwise_map.1 h).imp ?_⟩
  rintro m n ⟨s, t, hs, ht, hst⟩ c hc d hd
  have hpath := hs.symm.trans (mem_pathOccurrences.1 hc).1
  have hpath' := ht.symm.trans (mem_pathOccurrences.1 hd).1
  exact .inl (Scalar.text.inj hpath ▸ Scalar.text.inj hpath' ▸ hst)

/-! ## Keeping the first of each id -/

/-- Keeps an occurrence whose id is new. -/
def keepNew (kept : List Occurrence) (c : Occurrence) : List Occurrence :=
  if (kept.find? fun k => k.id == c.id).isSome then kept else kept ++ [c]

/-- Of occurrences one after another, those that have a new id. -/
def firsts (cs : List Occurrence) : List Occurrence := cs.foldl keepNew []

theorem find?_foldl_keepNew (id : String) (cs : List Occurrence) :
    ∀ kept : List Occurrence, (cs.foldl keepNew kept).find? (fun c => c.id == id) =
      (kept.find? fun c => c.id == id).or (cs.find? fun c => c.id == id) := by
  induction cs with
  | nil => simp
  | cons c cs ih =>
    intro kept
    rw [List.foldl_cons, ih, keepNew]
    split
    · rename_i hknown
      rw [List.find?_cons]
      split
      · -- The id is that of `c`, which is known, so what follows does not matter.
        rename_i hid
        rw [← eq_of_beq hid]
        obtain ⟨k, hk⟩ := Option.isSome_iff_exists.1 hknown
        simp only [hk, Option.some_or]
      · rfl
    · rw [List.find?_append, Option.or_assoc, List.find?_cons, List.find?_cons]
      split <;> simp

/-- An id is found among what is kept where it is found first. -/
theorem find?_firsts (id : String) (cs : List Occurrence) :
    (firsts cs).find? (fun c => c.id == id) = cs.find? fun c => c.id == id := by
  rw [firsts, find?_foldl_keepNew, List.find?_nil, Option.none_or]

theorem nodup_keepNew {kept : List Occurrence} (hkept : (kept.map (·.id)).Nodup)
    (c : Occurrence) : ((keepNew kept c).map (·.id)).Nodup := by
  unfold keepNew
  split
  · exact hkept
  · rename_i hnew
    rw [List.map_append, List.nodup_append]
    refine ⟨hkept, List.nodup_singleton _, ?_⟩
    rintro _ hk _ hc rfl
    obtain ⟨k, hk, hid⟩ := List.mem_map.1 hk
    refine hnew (List.find?_isSome.2 ⟨k, hk, ?_⟩)
    simpa [hid] using hc

theorem nodup_firsts (cs : List Occurrence) : ((firsts cs).map (·.id)).Nodup := by
  suffices h : ∀ kept : List Occurrence, (kept.map (·.id)).Nodup →
      ((cs.foldl keepNew kept).map (·.id)).Nodup from h [] List.nodup_nil
  induction cs with
  | nil => exact fun _ hkept => hkept
  | cons c cs ih => exact fun kept hkept => ih _ (nodup_keepNew hkept c)

theorem isSome_find?_iff {id : String} {cs : List Occurrence} :
    (cs.find? fun c => c.id == id).isSome = true ↔ id ∈ cs.map (·.id) := by
  simp only [List.find?_isSome, List.mem_map, beq_iff_eq]

theorem mem_ids_firsts {id : String} {cs : List Occurrence} :
    id ∈ (firsts cs).map (·.id) ↔ ∃ c ∈ cs, c.id = id := by
  rw [← isSome_find?_iff, find?_firsts, isSome_find?_iff, List.mem_map]

/-! ## The pass -/

/-- Operations are those that some occurrences are indexed as, one by one. -/
def Indexes (cs : List Occurrence) (operations : List Operation) : Prop :=
  List.Forall₂ Occurrence.IndexedAs cs operations

theorem Indexes.find? {cs : List Occurrence} {operations : List Operation}
    (h : Indexes cs operations) (id : String) :
    Option.Rel Occurrence.IndexedAs (cs.find? fun c => c.id == id)
      (Operation.find? operations (.text id)) := by
  induction h with
  | nil => exact .none
  | cons hc _ ih =>
    rw [Operation.find?, List.find?_cons, List.find?_cons, hc.id, Scalar.same_text]
    split
    · exact .some hc
    · exact ih

theorem Indexes.isSome_find? {cs : List Occurrence} {operations : List Operation}
    (h : Indexes cs operations) (id : String) :
    (cs.find? fun c => c.id == id).isSome = (Operation.find? operations (.text id)).isSome := by
  obtain ⟨hc, ho⟩ | ⟨c, o, hc, ho, -⟩ := rel_cases (h.find? id) <;> rw [hc, ho] <;> rfl

theorem upper_of_mem_methods : ∀ method ∈ methods, method.2 = Text.upper method.1 := by
  decide +kernel

section

variable {path : String} {item : Members} {method : String × String} {kept : List Occurrence}
  {operations operations' : List Operation}

/-- Under a method of a path item an operation with an id has a text as its id. -/
def HasTextId (item : Members) (method : String) : Prop :=
  ∀ spec, (item.get method).members? = some spec →
    (Members.get spec "operationId").Optionally IsText

/-- Adding what stands under a method, as a step of its own. -/
theorem addMethod_eq (hid : HasTextId item method.1) :
    addMethod (.text path) item method operations =
      match occurrence? path item method.1 with
      | some c =>
        if (Operation.find? operations (.text c.id)).isSome then .ok operations
        else (item.get "parameters").itemsOrNone.map fun shared =>
          operations ++ [⟨.text c.id, .text path, method.2, c.spec, shared⟩]
      | none => .ok operations := by
  unfold addMethod occurrence?
  cases hspec : (item.get method.1).members? with
  | none => rfl
  | some spec =>
    dsimp only
    by_cases hgiven : (Members.get spec "operationId").given = true
    · obtain ⟨id, hid⟩ := hid spec hspec hgiven
      rw [hid] at hgiven ⊢
      have hne : id.isEmpty = false := by simpa [Value.given, Scalar.given] using hgiven
      rw [if_pos hgiven]
      dsimp only
      rw [hne, if_neg Bool.false_ne_true]
      dsimp only [Value.key, bind, Except.bind]
      split
      · rfl
      · cases (item.get "parameters").itemsOrNone <;> rfl
    · -- No id, or an empty one: nothing stands here, and nothing is added.
      have hnone : occurrence? path item method.1 = none := by
        refine Option.eq_none_iff_forall_not_mem.2 fun c hc => hgiven ?_
        obtain ⟨-, -, -, hspec', hid, hne⟩ := occurrence?_eq_some_iff.1 hc
        cases hspec.symm.trans hspec'
        rw [hid]
        simpa [Value.given, Scalar.given] using hne
      rw [if_neg hgiven]
      simp only [occurrence?, hspec] at hnone
      rw [hnone]

/-- A step keeps what it comes to, if its id is new. -/
theorem addMethod_indexes (hmethod : method ∈ methods) (hid : HasTextId item method.1)
    (hkept : Indexes kept operations)
    (h : addMethod (.text path) item method operations = .ok operations') :
    Indexes ((occurrence? path item method.1).toList.foldl keepNew kept) operations' := by
  rw [addMethod_eq hid] at h
  cases hc : occurrence? path item method.1 with
  | none =>
    rw [hc] at h
    cases h
    exact hkept
  | some c =>
    obtain ⟨hpath, hitem, hname, -⟩ := occurrence?_eq_some_iff.1 hc
    have hfound := hkept.find? c.id
    rw [hc] at h
    simp only [Option.toList_some, List.foldl_cons, List.foldl_nil, keepNew]
    dsimp only at h
    split at h
    · rename_i hknown
      cases h
      obtain ⟨-, hnone⟩ | ⟨k, o, hk, -, -⟩ := rel_cases hfound
      · rw [hnone] at hknown
        cases hknown
      · rw [hk, if_pos Option.isSome_some]
        exact hkept
    · rename_i hnew
      obtain ⟨hk, -⟩ | ⟨k, o, -, ho, -⟩ := rel_cases hfound
      · cases hshared : (item.get "parameters").itemsOrNone with
        | error e =>
          rw [hshared] at h
          cases h
        | ok shared =>
          rw [hshared] at h
          cases h
          rw [hk, if_neg (by simp)]
          refine List.rel_append hkept (.cons ⟨rfl, congrArg _ hpath.symm, ?_, rfl, ?_⟩ .nil)
          · exact hname ▸ upper_of_mem_methods method hmethod
          · exact hitem ▸ hshared
      · rw [ho] at hnew
        exact absurd Option.isSome_some hnew

/-- What a path item is asked for in the pass can be read. -/
def HasShared (item : Members) : Prop :=
  ∃ shared, (item.get "parameters").itemsOrNone = .ok shared

theorem addMethod_ok (hid : HasTextId item method.1) (hshared : HasShared item) (path : String)
    (operations : List Operation) :
    ∃ operations', addMethod (.text path) item method operations = .ok operations' := by
  obtain ⟨shared, hshared⟩ := hshared
  rw [addMethod_eq hid]
  split
  · split
    · exact ⟨_, rfl⟩
    · exact ⟨_, by rw [hshared]; rfl⟩
  · exact ⟨_, rfl⟩

theorem addMethods_indexes {names : List (String × String)} (hnames : names ⊆ methods)
    (hid : ∀ method ∈ names, HasTextId item method.1) :
    ∀ {kept operations}, Indexes kept operations →
      addMethods (.text path) item names operations = .ok operations' →
      Indexes ((names.filterMap fun method => occurrence? path item method.1).foldl keepNew kept)
        operations' := by
  induction names with
  | nil =>
    intro kept operations hkept h
    cases h
    exact hkept
  | cons method rest ih =>
    intro kept operations hkept h
    obtain ⟨hmethod, hrest⟩ := List.cons_subset.1 hnames
    obtain ⟨hfirst, hlater⟩ := List.forall_mem_cons.1 hid
    obtain ⟨between, hstep, h⟩ := Result.bind_eq_ok.1 h
    have hnext := ih hrest hlater (addMethod_indexes hmethod hfirst hkept hstep) h
    rw [List.filterMap_cons]
    cases hc : occurrence? path item method.1 with
    | none => simpa [hc] using hnext
    | some c => simpa [hc] using hnext

theorem addMethods_ok {names : List (String × String)}
    (hid : ∀ method ∈ names, HasTextId item method.1) (hshared : HasShared item) (path : String) :
    ∀ operations, ∃ operations',
      addMethods (.text path) item names operations = .ok operations' := by
  induction names with
  | nil => exact fun _ => ⟨_, rfl⟩
  | cons method rest ih =>
    intro operations
    obtain ⟨hfirst, hlater⟩ := List.forall_mem_cons.1 hid
    obtain ⟨between, hstep⟩ := addMethod_ok hfirst hshared path operations
    obtain ⟨operations', h⟩ := ih hlater between
    exact ⟨operations', Result.bind_eq_ok.2 ⟨between, hstep, h⟩⟩

end

/-- The paths of a document can be read as far as the pass reads them. -/
def Readable (paths : Members) : Prop :=
  ∀ m ∈ paths, ∃ item, m.2.membersOrNone = .ok item ∧ HasShared item

section

variable {paths : Members} {operations' : List Operation}

theorem TextIds.hasTextId (h : TextIds paths) {m : Scalar × Value} (hm : m ∈ paths)
    {item : Members} (hitem : m.2.membersOrNone = .ok item) :
    ∀ method ∈ methods, HasTextId item method.1 :=
  fun _ hmethod spec hspec => h.ids m hm item hitem _ (List.mem_map_of_mem hmethod) spec hspec

theorem addPaths_indexes (htexts : TextIds paths) {ms : Members} (hms : ms ⊆ paths) :
    ∀ {kept operations}, Indexes kept operations →
      addPaths ms operations = .ok operations' →
      Indexes ((occurrences ms).foldl keepNew kept) operations' := by
  induction ms with
  | nil =>
    intro kept operations hkept h
    cases h
    exact hkept
  | cons m rest ih =>
    intro kept operations hkept h
    obtain ⟨hm, hrest⟩ := List.cons_subset.1 hms
    obtain ⟨key, v⟩ := m
    obtain ⟨path, rfl⟩ := Scalar.isText_iff.1 (htexts.keyed.texts _ hm)
    obtain ⟨item, hitem, h⟩ := Result.bind_eq_ok.1 h
    obtain ⟨between, hstep, h⟩ := Result.bind_eq_ok.1 h
    have hnext := ih hrest
      (addMethods_indexes (List.Subset.refl _) (htexts.hasTextId hm hitem) hkept hstep) h
    have hoccurrences : pathOccurrences (.text path, v) =
        methods.filterMap fun method => occurrence? path item method.1 := by
      simp only [pathOccurrences, hitem, methodNames, List.filterMap_map]
      rfl
    rw [occurrences, List.flatMap_cons, List.foldl_append, hoccurrences]
    exact hnext

theorem addPaths_ok (htexts : TextIds paths) (hreadable : Readable paths) {ms : Members}
    (hms : ms ⊆ paths) : ∀ operations, ∃ operations', addPaths ms operations = .ok operations' := by
  induction ms with
  | nil => exact fun _ => ⟨_, rfl⟩
  | cons m rest ih =>
    intro operations
    obtain ⟨hm, hrest⟩ := List.cons_subset.1 hms
    obtain ⟨key, v⟩ := m
    obtain ⟨path, rfl⟩ := Scalar.isText_iff.1 (htexts.keyed.texts _ hm)
    obtain ⟨item, hitem, hshared⟩ := hreadable _ hm
    obtain ⟨between, hstep⟩ := addMethods_ok (htexts.hasTextId hm hitem) hshared path operations
    obtain ⟨operations', h⟩ := ih hrest between
    exact ⟨operations', Result.bind_eq_ok.2 ⟨item, hitem, Result.bind_eq_ok.2 ⟨between, hstep, h⟩⟩⟩

/-- Paths that are read as members are passed over in the order of their keys. -/
theorem ofPaths_eq {v : Value} (h : v.membersOrNone = .ok paths) :
    ofPaths v = sortOnKey (·.1) paths >>= fun sorted => addPaths sorted [] := by
  unfold Value.membersOrNone at h
  unfold ofPaths
  split at h
  · rename_i hgiven
    rw [if_pos hgiven]
    unfold Value.members Value.members? at h
    cases hbare : v.bare <;> rw [hbare] at h <;> cases h
    rfl
  · rename_i hgiven
    cases h
    rw [if_neg hgiven]
    rfl

/-- The index of paths is made of what stands first under them once they are in order. -/
theorem ofPaths_indexes (htexts : TextIds paths) {v : Value} (hv : v.membersOrNone = .ok paths)
    (h : ofPaths v = .ok operations') :
    ∃ sorted : Members, sorted.Perm paths ∧ (sorted.map Prod.fst).Pairwise Scalar.Precedes ∧
      Indexes (firsts (occurrences sorted)) operations' := by
  rw [ofPaths_eq hv] at h
  obtain ⟨sorted, hsorted, h⟩ := Result.bind_eq_ok.1 h
  have hperm := sortOnKey_perm hsorted
  refine ⟨sorted, hperm, ?_, addPaths_indexes htexts hperm.subset .nil h⟩
  unfold sortOnKey at hsorted
  rw [if_pos (allComparable_of_texts (List.forall_mem_map.2 htexts.keyed.texts))] at hsorted
  cases hsorted
  refine precedes_sortedBy htexts.keyed.texts ?_
  have hdistinct := htexts.keyed.distinct.filterMap (f := Scalar.text?) fun a b s ha hb => by
    rw [Scalar.eq_text_of_text? ha, Scalar.eq_text_of_text? hb]
  rwa [List.filterMap_map] at hdistinct

end

/-! ## The order of members -/

/-- A value is in the place of another with the same members in any order. -/
def SameItem (v w : Value) : Prop :=
  v = w ∨ ∃ ms ns, v.membersOrNone = .ok ms ∧ w.membersOrNone = .ok ns ∧ ms.Perm ns

/-- Paths come in another order, and so do the members of each path item. -/
def PathsReordered (paths paths' : Members) : Prop :=
  ∃ between : Members,
    List.Forall₂ (fun m n => m.1 = n.1 ∧ SameItem m.2 n.2) paths between ∧ between.Perm paths'

/-- An element that alone is looked for is found in any order. -/
theorem find?_eq_of_perm {α : Type} {p : α → Bool} {l l' : List α} (h : l.Perm l')
    (hone : ∀ a ∈ l, ∀ b ∈ l, p a = true → p b = true → a = b) : l.find? p = l'.find? p := by
  cases ha : l.find? p with
  | none =>
    exact (List.find?_eq_none.2 fun b hb => List.find?_eq_none.1 ha b (h.mem_iff.2 hb)).symm
  | some a =>
    have hmem := List.mem_of_find?_eq_some ha
    obtain ⟨b, hb⟩ := Option.isSome_iff_exists.1
      (List.find?_isSome.2 ⟨a, h.mem_iff.1 hmem, List.find?_some ha⟩)
    have hmem' := h.mem_iff.2 (List.mem_of_find?_eq_some hb)
    rw [hb, hone a hmem b hmem' (List.find?_some ha) (List.find?_some hb)]

theorem get_eq_of_perm {ms ns : Members} (hdistinct : (ms.map Prod.fst).Nodup) (h : ms.Perm ns)
    (key : String) : ms.get key = ns.get key := by
  have hfound := find?_eq_of_perm (p := fun m => m.1.same (.text key)) h fun m hm n hn hkey hkey' =>
    List.inj_on_of_nodup_map hdistinct hm hn
      ((Scalar.same_text_iff.1 hkey).trans (Scalar.same_text_iff.1 hkey').symm)
  rw [Members.get, Members.get, Members.get?, Members.get?, Members.lookup, Members.lookup, hfound]

section

variable {path : Scalar} {item item' : Members} (hget : ∀ key, item.get key = item'.get key)
include hget

theorem addMethod_congr (method : String × String) (operations : List Operation) :
    addMethod path item method operations = addMethod path item' method operations := by
  unfold addMethod
  rw [hget, hget]

theorem addMethods_congr (names : List (String × String)) :
    ∀ operations,
      addMethods path item names operations = addMethods path item' names operations := by
  induction names with
  | nil => exact fun _ => rfl
  | cons method rest ih =>
    intro operations
    rw [addMethods, addMethods, addMethod_congr hget]
    exact congrArg _ (funext ih)

end

theorem addPaths_congr {ms ns : Members}
    (h : List.Forall₂ (fun m n => m.1 = n.1 ∧ SameItem m.2 n.2) ms ns)
    (hdistinct : ∀ m ∈ ms, ∀ item, m.2.membersOrNone = .ok item → (item.map Prod.fst).Nodup) :
    ∀ operations, addPaths ms operations = addPaths ns operations := by
  induction h with
  | nil => exact fun _ => rfl
  | @cons m n _ _ hm _ ih =>
    intro operations
    obtain ⟨hfirst, hlater⟩ := List.forall_mem_cons.1 hdistinct
    obtain ⟨path, v⟩ := m
    obtain ⟨path', w⟩ := n
    obtain ⟨rfl, hvw⟩ : path = path' ∧ SameItem v w := hm
    rw [addPaths, addPaths]
    rcases hvw with rfl | ⟨item, item', hitem, hitem', hperm⟩
    · simp only [ih hlater]
    · have hget := get_eq_of_perm (hfirst item hitem) hperm
      simp only [hitem, hitem', bind, Except.bind, addMethods_congr hget, ih hlater]

/-- What is indexed does not depend on the order of paths and of the members of path items. -/
theorem ofPaths_eq_of_reordered {paths paths' : Members} (htexts : TextIds paths)
    (h : PathsReordered paths paths') {v w : Value} (hv : v.membersOrNone = .ok paths)
    (hw : w.membersOrNone = .ok paths') : ofPaths v = ofPaths w := by
  obtain ⟨between, hitems, hperm⟩ := h
  have hkeeps : Members.KeepsKeys fun m n => m.1 = n.1 ∧ SameItem m.2 n.2 := fun _ _ h => h.1
  have hbetween := htexts.keyed.perm_keys (.of_eq (Members.forall₂_keys hkeeps hitems))
  have hpaths' := hbetween.perm_keys (hperm.map _)
  have hsame : sortOnKey (·.1) between = sortOnKey (·.1) paths' := by
    unfold sortOnKey
    rw [if_pos (allComparable_of_texts (List.forall_mem_map.2 hbetween.texts)),
      if_pos (allComparable_of_texts (List.forall_mem_map.2 hpaths'.texts)),
      Schema.sortedBy_key_eq_of_perm hpaths' hperm]
  rw [ofPaths_eq hv, ofPaths_eq hw, ← hsame]
  have hsorts := Schema.sortOnKey_forall₂ hkeeps hitems
  refine (hsorts.bind fun sorted sorted' hsorted _ hcorrespond => ?_).eq
  refine .of_eq (addPaths_congr hcorrespond (fun m hm => ?_) []) fun _ _ => rfl
  exact htexts.distinct m ((sortOnKey_perm hsorted).mem_iff.1 hm)

end Operation

/-! ## The index of a document -/

namespace Document

open Operation (Stands TextIds Readable PathsReordered)

/-- Of every id a document knows the occurrence that stands first under some paths. -/
structure IndexesFirst (d : Document) (paths : Members) : Prop where
  has : ∀ id : String, ∃ known, d.has (.text id) = .ok known ∧
    (known = true ↔ ∃ c, Stands paths c ∧ c.id = id)
  operation : ∀ (id : String) (o : Operation), d.operation (.text id) = .ok o ↔
    ∃ c, Stands paths c ∧ c.id = id ∧ c.IndexedAs o ∧
      ∀ c', Stands paths c' → c'.id = id → c = c' ∨ c.Before c'
  count : d.operations.length = {id | ∃ c, Stands paths c ∧ c.id = id}.ncard

theorem find?_text (d : Document) (id : String) :
    d.find? (.text id) = .ok (Operation.find? d.operations (.text id)) := rfl

theorem has_text (d : Document) (id : String) :
    d.has (.text id) = .ok (Operation.find? d.operations (.text id)).isSome := rfl

theorem operation_text_eq_ok {d : Document} {id : String} {o : Operation} :
    d.operation (.text id) = .ok o ↔ Operation.find? d.operations (.text id) = some o := by
  rw [operation, find?_text]
  cases Operation.find? d.operations (.text id) with
  | none => constructor <;> intro h <;> cases h
  | some o' => constructor <;> intro h <;> cases h <;> rfl

/-- What stands under paths in order is found by the pass where it stands first. -/
theorem indexesFirst_of_indexes {d : Document} {paths sorted : Members}
    (hperm : sorted.Perm paths) (hsorted : (sorted.map Prod.fst).Pairwise Scalar.Precedes)
    (h : Operation.Indexes (Operation.firsts (Operation.occurrences sorted)) d.operations) :
    d.IndexesFirst paths := by
  have hstands : ∀ {c}, c ∈ Operation.occurrences sorted ↔ Stands paths c := fun {c} => by
    rw [Operation.mem_occurrences]
    exact ⟨fun hc => { hc with item := hc.item.imp fun _ hv => hv.imp_left hperm.mem_iff.1 },
      fun hc => { hc with item := hc.item.imp fun _ hv => hv.imp_left hperm.mem_iff.2 }⟩
  have hfirst : ∀ {id c}, (Operation.firsts (Operation.occurrences sorted)).find?
        (fun c => c.id == id) = some c ↔ Stands paths c ∧ c.id = id ∧
          ∀ c', Stands paths c' → c'.id = id → c = c' ∨ c.Before c' := fun {id c} => by
    rw [Operation.find?_firsts,
      find?_eq_some_iff_least Occurrence.Before.asymm (Operation.occurrences_pairwise hsorted)]
    simp only [hstands, beq_iff_eq]
  have hids : ∀ id : String, id ∈ (Operation.firsts (Operation.occurrences sorted)).map (·.id) ↔
      ∃ c, Stands paths c ∧ c.id = id := fun id => by
    simp only [Operation.mem_ids_firsts, hstands]
  refine ⟨fun id => ⟨_, has_text d id, ?_⟩, fun id o => ?_, ?_⟩
  · rw [← hids, ← Operation.isSome_find?_iff, h.isSome_find?]
  · rw [operation_text_eq_ok]
    constructor
    · intro ho
      obtain ⟨-, hnone⟩ | ⟨c, o', hc, ho', hindexed⟩ := rel_cases (h.find? id)
      · cases hnone.symm.trans ho
      · cases ho'.symm.trans ho
        obtain ⟨hc, hid, hleast⟩ := hfirst.1 hc
        exact ⟨c, hc, hid, hindexed, hleast⟩
    · rintro ⟨c, hc, hid, hindexed, hleast⟩
      obtain ⟨hnone, -⟩ | ⟨c', o', hc', ho', hindexed'⟩ := rel_cases (h.find? id)
      · cases hnone.symm.trans (hfirst.2 ⟨hc, hid, hleast⟩)
      · cases hc'.symm.trans (hfirst.2 ⟨hc, hid, hleast⟩)
        rw [ho', hindexed.unique hindexed']
  · have hset : {id | ∃ c, Stands paths c ∧ c.id = id} =
        ((Operation.firsts (Operation.occurrences sorted)).map (·.id)).toFinset := by
      ext id
      rw [Finset.mem_coe, List.mem_toFinset, hids]
      rfl
    rw [hset, Set.ncard_coe_finset, List.toFinset_card_of_nodup (Operation.nodup_firsts _),
      List.length_map, List.Forall₂.length_eq h]

/-- A document is made of its members and the index of its paths. -/
theorem ofValue_eq_ok_iff {v : Value} {root : Members} (hroot : v.membersOrNone = .ok root)
    {d : Document} :
    ofValue v = .ok d ↔ ∃ operations,
      Operation.ofPaths (root.get "paths") = .ok operations ∧ d = ⟨root, operations⟩ := by
  constructor
  · intro h
    obtain ⟨root', hroot', h⟩ := Result.bind_eq_ok.1 h
    cases hroot.symm.trans hroot'
    obtain ⟨operations, hoperations, h⟩ := Result.bind_eq_ok.1 h
    cases h
    exact ⟨operations, hoperations, rfl⟩
  · rintro ⟨operations, hoperations, rfl⟩
    exact Result.bind_eq_ok.2 ⟨root, hroot, Result.bind_eq_ok.2 ⟨operations, hoperations, rfl⟩⟩

/--
A document knows every id by its first occurrence, and it stays the same document to its operations
when its paths and the members of path items come in another order.
-/
theorem ofValue_indexesFirst {v : Value} {root paths : Members}
    (hroot : v.membersOrNone = .ok root) (hpaths : (root.get "paths").membersOrNone = .ok paths)
    (htexts : TextIds paths) :
    (Readable paths → ∃ d, ofValue v = .ok d) ∧
    ∀ d, ofValue v = .ok d → d.IndexesFirst paths ∧
      ∀ v' root' paths', Value.membersOrNone v' = .ok root' →
        (Members.get root' "paths").membersOrNone = .ok paths' → PathsReordered paths paths' →
        ∃ d', ofValue v' = .ok d' ∧ d'.operations = d.operations := by
  refine ⟨fun hreadable => ?_, fun d hd => ⟨?_, ?_⟩⟩
  · obtain ⟨sorted, hsorted⟩ := sortOnKey_ok htexts.keyed.texts
    obtain ⟨operations, h⟩ :=
      Operation.addPaths_ok htexts hreadable (sortOnKey_perm hsorted).subset []
    refine ⟨⟨root, operations⟩, (ofValue_eq_ok_iff hroot).2 ⟨_, ?_, rfl⟩⟩
    rw [Operation.ofPaths_eq hpaths]
    exact Result.bind_eq_ok.2 ⟨sorted, hsorted, h⟩
  · obtain ⟨operations, hoperations, rfl⟩ := (ofValue_eq_ok_iff hroot).1 hd
    obtain ⟨sorted, hperm, hsorted, hindexes⟩ := Operation.ofPaths_indexes htexts hpaths hoperations
    exact indexesFirst_of_indexes hperm hsorted hindexes
  · intro v' root' paths' hroot' hpaths' hreordered
    obtain ⟨operations, hoperations, rfl⟩ := (ofValue_eq_ok_iff hroot).1 hd
    rw [Operation.ofPaths_eq_of_reordered htexts hreordered hpaths hpaths'] at hoperations
    exact ⟨⟨root', operations⟩, (ofValue_eq_ok_iff hroot').2 ⟨_, hoperations, rfl⟩, rfl⟩

/-! ### An id under two paths and two methods -/

namespace Sample

def stating (id : String) : Value := .object [(.text "operationId", .text id)]

def owners : Members :=
  [(.text "post", stating "owners"), (.text "get", stating "owners"),
    (.text "parameters", .list [.text "tenant"])]

def groups : Members := [(.text "get", stating "groups"), (.text "delete", stating "owners")]

/-- Paths where one id stands three times. -/
def thrice : Members := [(.text "/owners", .object owners), (.text "/groups", .object groups)]

/-- The same paths, turned round on both levels. -/
def turned : Members :=
  [(.text "/groups", .object groups.reverse), (.text "/owners", .object owners.reverse)]

def documentOf (paths : Members) : Value := .object [(.text "paths", .object paths)]

theorem textIds_thrice : TextIds thrice := by
  refine ⟨⟨by decide, by decide⟩, ?_, ?_⟩
  · refine List.forall_mem_cons.2 ⟨?_, List.forall_mem_singleton.2 ?_⟩
    all_goals
      rintro item ⟨⟩
      decide
  · refine List.forall_mem_cons.2 ⟨?_, List.forall_mem_singleton.2 ?_⟩
    all_goals
      rintro item ⟨⟩ method hmethod
      fin_cases hmethod
      all_goals
        rintro spec hspec
        cases hspec <;> exact fun _ => ⟨_, rfl⟩

theorem reordered_turned : PathsReordered thrice turned := by
  refine ⟨turned.reverse, .cons ⟨rfl, ?_⟩ (.cons ⟨rfl, ?_⟩ .nil), List.reverse_perm _⟩
  · exact .inr ⟨_, _, rfl, rfl, (List.reverse_perm _).symm⟩
  · exact .inr ⟨_, _, rfl, rfl, (List.reverse_perm _).symm⟩

end Sample

theorem ofValue_indexesFirst_sample :
    TextIds Sample.thrice ∧ PathsReordered Sample.thrice Sample.turned ∧
      ∃ d, ofValue (Sample.documentOf Sample.thrice) = .ok d ∧ d.IndexesFirst Sample.thrice ∧
        d.operations.map (fun o => (o.id, o.path, o.method)) =
          [(.text "groups", .text "/groups", "GET"), (.text "owners", .text "/groups", "DELETE")] ∧
        ∃ d', ofValue (Sample.documentOf Sample.turned) = .ok d' ∧
          d'.operations = d.operations := by
  obtain ⟨-, hindexes⟩ := ofValue_indexesFirst (v := Sample.documentOf Sample.thrice) rfl rfl
    Sample.textIds_thrice
  refine ⟨Sample.textIds_thrice, Sample.reordered_turned, _, rfl, ?_⟩
  obtain ⟨hfirst, hturned⟩ := hindexes _ rfl
  exact ⟨hfirst, rfl, hturned _ _ _ rfl rfl Sample.reordered_turned⟩

end Document

end ApiModels
