/-
ApiModels.Proofs.Struct.Collect — what is collected when all structs have
names.

Collecting takes a struct only if its name is new, and then goes no further
into a struct whose name it knows. Nothing is missed all the same where structs
of one name nest structs of the same names (`Gatherable`). `Gathers` is what one
call adds, `collectLists_gathering` what is there in the end. Structs that can be
told apart by their fingerprints are such structs (`gatherable_properStruct`).

Where names are not empty the fields themselves are left as they are
(`collectAll_fst`).
-/
import ApiModels.Proofs.Struct.Sharing
import ApiModels.Proofs.Value.Sorting

namespace ApiModels

/-- A registry whose names can be told apart and are not empty. -/
structure NameRegistry.Readable (r : NameRegistry) : Prop extends r.Legible where
  nonempty : ∀ name ∈ r.names, name ≠ ""

/-- A registry in which no struct has an empty name. -/
structure NameRegistry.Titled (r : NameRegistry) : Prop where
  consistent : r.Consistent
  nonempty : ∀ name ∈ r.names, name ≠ ""

theorem NameRegistry.Readable.titled {r : NameRegistry} (h : r.Readable) : r.Titled :=
  ⟨h.consistent, h.nonempty⟩

theorem NameRegistry.numbered_ne_empty {wanted : String} (h : wanted ≠ "") (n : Nat) :
    numbered wanted n ≠ "" := by
  cases n with
  | zero => exact h
  | succ n => exact fun hempty => h (String.append_eq_empty_iff.1 hempty).1

theorem NameRegistry.titled_empty : NameRegistry.Titled {} :=
  ⟨NameRegistry.consistent_empty, nofun⟩

namespace Field

/-! ## Names that are not empty -/

theorem ProperStruct.ref_ne_empty {r : NameRegistry} (hr : r.Readable) {s : Field}
    (hs : ProperStruct r s) : s.attrTypeRef ≠ "" :=
  hr.nonempty _ (hs.mem_names hr.toLegible)

/-- The path through a field makes a name, if it is a text, and so do the paths inside it. -/
def TitledInside (f : Field) : Prop := ∀ g ∈ f.properties, Name.titled g.name.display ≠ ""

theorem Candidate.ne_empty {c path : String} {fields : List Field} (hc : Candidate c path fields)
    (h : ∀ f ∈ fields, (f.struct?.isSome = true → Name.titled f.name.display ≠ "") ∧
      Everywhere TitledInside f) : c ≠ "" := by
  have hpath : ∀ {path name : String}, name ≠ "" → path ++ name ≠ "" := by
    intro path name hname hempty
    exact hname (String.append_eq_empty_iff.1 hempty).2
  induction hc with
  | here hf hs hc =>
    have htitled := (h _ hf).1 (by rw [hs]; rfl)
    rw [hc, candidate]
    split
    · exact hpath htitled
    · rename_i href
      simpa using href
  | inside hf hs _ ih =>
    refine ih fun g hg => ⟨fun _ => ((h _ hf).2.struct hs).here g hg, ?_⟩
    exact ((h _ hf).2.struct hs).properties g hg

theorem names_assignAll_ne_empty (path : String) {r : NameRegistry} {fields : List Field}
    (hr : ∀ name ∈ r.names, name ≠ "")
    (h : ∀ f ∈ fields, (f.struct?.isSome = true → Name.titled f.name.display ≠ "") ∧
      Everywhere TitledInside f) :
    ∀ name ∈ (assignAll path r fields).2.names, name ≠ "" := by
  intro name hname
  rcases names_assignAll path r fields name hname with hold | ⟨-, c, k, hc, rfl⟩
  · exact hr name hold
  · exact NameRegistry.numbered_ne_empty (hc.ne_empty h) k

/-- Where fields are named and no name is empty, no struct in them is without one. -/
theorem Named.ref_ne_empty {r : NameRegistry} (hr : r.Titled) {fields : List Field}
    (h : ∀ f ∈ fields, Named r f) : ∀ s, Nests s fields → s.attrTypeRef ≠ "" := by
  intro s hs
  obtain ⟨hname, -⟩ := Named.of_nests h hs
  exact hr.nonempty _ (hr.consistent.mem_names.2 ⟨_, hname⟩)

/-! ## Collecting changes names only -/

section

variable {found : Found} {info : FieldInfo} {item : Option Field} {properties : List Field}
  {inner : Found → List Field × Found}

theorem restate_takeStruct (h : ∀ found, (inner found).1.map (restate withoutRef) =
      properties.map (restate withoutRef)) :
    restate withoutRef (takeStruct found info item properties inner).1 =
      restate withoutRef ⟨info, item, properties⟩ := by
  unfold takeStruct
  dsimp only
  split
  · exact restate_congr rfl rfl (h _)
  · split
    · rfl
    · exact restate_congr rfl rfl (h _)

end

mutual

theorem restate_collect (found : Found) :
    ∀ f : Field, restate withoutRef (collect found f).1 = restate withoutRef f
  | ⟨_, item, properties⟩ => by
    simp only [collect]
    split
    · exact restate_takeStruct fun found => restate_collectAll found properties
    · split
      · exact restate_congr rfl (restate_collectItem found item) rfl
      · rfl

theorem restate_collectItem (found : Found) :
    ∀ item : Option Field,
      (collectItem found item).1.map (restate withoutRef) = item.map (restate withoutRef)
  | none => rfl
  | some ⟨_, _, properties⟩ =>
    congrArg some (restate_takeStruct fun found => restate_collectAll found properties)

theorem restate_collectAll (found : Found) :
    ∀ fields : List Field,
      (collectAll found fields).1.map (restate withoutRef) = fields.map (restate withoutRef)
  | [] => rfl
  | f :: fs => by
    simp only [collectAll, List.map_cons]
    rw [restate_collect found f, restate_collectAll _ fs]

end

/-! ## Fields stay as they are -/

section

variable {found : Found} {info : FieldInfo} {item : Option Field} {properties : List Field}
  {inner : Found → List Field × Found}

theorem structKey_of_ne {info : FieldInfo} (h : info.attrTypeRef ≠ "") :
    structKey info = info.attrTypeRef := by
  unfold structKey
  rw [if_neg (by simpa using h)]

theorem takeStruct_eq (hname : info.attrTypeRef ≠ "")
    (hinner : ∀ found, (inner found).1 = properties) :
    takeStruct found info item properties inner =
      (⟨info, item, properties⟩,
        if found.keys.contains info.attrTypeRef then found
        else
          let after := (inner { found with keys := info.attrTypeRef :: found.keys }).2
          { after with structs := ⟨info, item, properties⟩ :: after.structs }) := by
  unfold takeStruct
  rw [structKey_of_ne hname]
  dsimp only
  rw [if_neg (by simpa using hname)]
  split
  · rfl
  · rw [hinner]

end

mutual

theorem collect_fst (found : Found) :
    ∀ f : Field, (∀ s, Nests s [f] → s.attrTypeRef ≠ "") → (collect found f).1 = f
  | ⟨info, item, properties⟩, h => by
    simp only [collect]
    split
    · rename_i hkind
      have hs := struct?_of_object (f := ⟨info, item, properties⟩) (by simpa using hkind)
      rw [takeStruct_eq (h _ (.here List.mem_cons_self hs)) fun found => ?_]
      exact collectAll_fst found properties fun s hin => h s (.inside List.mem_cons_self hs hin)
    · split
      · rename_i hsequence
        have hs := struct?_of_sequence (f := ⟨info, item, properties⟩) hsequence
        rw [collectItem_fst found item]
        intro s hitem
        have hs' := hs.trans hitem
        exact ⟨h s (.here List.mem_cons_self hs'),
          fun t hin => h t (.inside List.mem_cons_self hs' hin)⟩
      · rfl

theorem collectItem_fst (found : Found) :
    ∀ item : Option Field, (∀ s, item = some s →
        s.attrTypeRef ≠ "" ∧ ∀ t, Nests t s.properties → t.attrTypeRef ≠ "") →
      (collectItem found item).1 = item
  | none, _ => rfl
  | some ⟨info, item, properties⟩, h => by
    obtain ⟨hname, hin⟩ := h _ rfl
    simp only [collectItem]
    rw [takeStruct_eq hname fun found => collectAll_fst found properties hin]

theorem collectAll_fst (found : Found) :
    ∀ fields : List Field, (∀ s, Nests s fields → s.attrTypeRef ≠ "") →
      (collectAll found fields).1 = fields
  | [], _ => rfl
  | f :: fs, h => by
    simp only [collectAll]
    rw [collect_fst found f fun s hs => h s (hs.subset (by simp)),
      collectAll_fst _ fs fun s hs => h s (hs.subset (by simp))]

end

/-! ## What is gathered -/

/-- The names of the structs of some fields are all known. -/
def Covered (keys : List String) (fields : List Field) : Prop :=
  ∀ f ∈ fields, ∀ s, f.struct? = some s → s.attrTypeRef ∈ keys

theorem Covered.mono {keys keys' : List String} (hsub : keys ⊆ keys') {fields : List Field}
    (h : Covered keys fields) : Covered keys' fields :=
  fun f hf s hs => hsub (h f hf s hs)

/-- Of every struct that some fields nest directly something holds. -/
def AllNest (P : Field → Prop) (fields : List Field) : Prop :=
  ∀ f ∈ fields, ∀ s, f.struct? = some s → P s

/--
Structs that can be gathered by their names: none is without one, those inside them can be gathered
as well, and structs of one name nest structs of the same names.
-/
structure Gatherable (P : Field → Prop) : Prop where
  named : ∀ {s}, P s → s.attrTypeRef ≠ ""
  inside : ∀ {s}, P s → AllNest P s.properties
  shared : ∀ {s t}, P s → P t → s.attrTypeRef = t.attrTypeRef →
    ∀ {keys}, Covered keys s.properties → Covered keys t.properties

theorem Gatherable.of_nests {P : Field → Prop} (hP : Gatherable P) {fields : List Field}
    (h : AllNest P fields) {s : Field} (hs : Nests s fields) : P s := by
  induction hs with
  | here hf hs => exact h _ hf _ hs
  | inside hf ht _ ih => exact ih (hP.inside (h _ hf _ ht))

theorem Gatherable.ne_empty {P : Field → Prop} (hP : Gatherable P) {fields : List Field}
    (h : AllNest P fields) : ∀ s, Nests s fields → s.attrTypeRef ≠ "" :=
  fun _ hs => hP.named (hP.of_nests h hs)

/--
From one state of collecting to a later one: some structs are new, each under its name, and the
names of what is in them are known. A name that was known before need not belong to a struct yet.
-/
structure Gathers (P : Field → Prop) (before after : Found) (new : List Field) : Prop where
  structs : after.structs = new ++ before.structs
  keys : after.keys.Perm (new.map (fun s => s.attrTypeRef) ++ before.keys)
  nodup : before.keys.Nodup → after.keys.Nodup
  proper : ∀ s ∈ new, P s
  closed : ∀ s ∈ new, Covered after.keys s.properties

section

variable {P : Field → Prop}

namespace Gathers

variable {before between after : Found} {new new' : List Field}

theorem nothing (found : Found) : Gathers P found found [] :=
  ⟨rfl, .refl _, id, nofun, nofun⟩

theorem subset (h : Gathers P before after new) : before.keys ⊆ after.keys :=
  fun _ hkey => h.keys.mem_iff.2 (List.mem_append_right _ hkey)

theorem trans (h : Gathers P before between new) (h' : Gathers P between after new') :
    Gathers P before after (new' ++ new) where
  structs := by rw [h'.structs, h.structs, List.append_assoc]
  keys := by
    rw [List.map_append, List.append_assoc]
    exact h'.keys.trans (h.keys.append_left _)
  nodup := h'.nodup ∘ h.nodup
  proper := by
    intro s hs
    rcases List.mem_append.1 hs with hs | hs
    · exact h'.proper s hs
    · exact h.proper s hs
  closed := by
    intro s hs
    rcases List.mem_append.1 hs with hs | hs
    · exact h'.closed s hs
    · exact (h.closed s hs).mono h'.subset

end Gathers

/-- After some fields were gone through, all structs in them are known. -/
def Gathered (P : Field → Prop) (before after : Found) (fields : List Field) : Prop :=
  (∃ new, Gathers P before after new) ∧ Covered after.keys fields

/-- A struct is taken, or its name is known. -/
theorem gathers_takeStruct (hP : Gatherable P) (found : Found) {info : FieldInfo}
    {item : Option Field} {properties : List Field} (hs : P ⟨info, item, properties⟩)
    (inner : ∀ found, Gathered P found (collectAll found properties).2 properties) :
    let after := (takeStruct found info item properties
      (fun found => collectAll found properties)).2
    (∃ new, Gathers P found after new) ∧ info.attrTypeRef ∈ after.keys := by
  have hsame : ∀ found, (collectAll found properties).1 = properties := fun found =>
    collectAll_fst found properties (hP.ne_empty (hP.inside hs))
  rw [takeStruct_eq (hP.named hs) hsame]
  dsimp only
  split
  · rename_i hknown
    exact ⟨⟨[], .nothing found⟩, by simpa using hknown⟩
  · rename_i hunknown
    obtain ⟨⟨new, hnew⟩, hcovered⟩ := inner { found with keys := info.attrTypeRef :: found.keys }
    have hkeys := hnew.keys.trans List.perm_middle
    refine ⟨⟨⟨info, item, properties⟩ :: new, ⟨?_, hkeys, ?_, ?_, ?_⟩⟩,
      hnew.subset List.mem_cons_self⟩
    · simp [hnew.structs]
    · intro hnodup
      exact hnew.nodup (List.nodup_cons.2 ⟨by simpa using hunknown, hnodup⟩)
    · exact List.forall_mem_cons.2 ⟨hs, hnew.proper⟩
    · exact List.forall_mem_cons.2 ⟨hcovered, hnew.closed⟩

mutual

theorem gathered_collect (hP : Gatherable P) (found : Found) :
    ∀ f : Field, (∀ s, f.struct? = some s → P s) → Gathered P found (collect found f).2 [f]
  | ⟨info, item, properties⟩, h => by
    simp only [collect]
    split
    · rename_i hkind
      have hs := struct?_of_object (f := ⟨info, item, properties⟩) (by simpa using hkind)
      obtain ⟨hgathers, hmem⟩ := gathers_takeStruct hP found (h _ hs)
        fun found => gathered_collectAll hP found properties (hP.inside (h _ hs))
      refine ⟨hgathers, ?_⟩
      intro f hf s hfs
      rw [List.mem_singleton.1 hf, hs] at hfs
      cases hfs
      exact hmem
    · rename_i hkind
      split
      · rename_i hsequence
        have hs := struct?_of_sequence (f := ⟨info, item, properties⟩) hsequence
        obtain ⟨hgathers, hmem⟩ := gathered_collectItem hP found item fun s hitem =>
          h s (hs.trans hitem)
        refine ⟨hgathers, ?_⟩
        intro f hf s hfs
        rw [List.mem_singleton.1 hf, hs] at hfs
        exact hmem s hfs
      · rename_i hsequence
        refine ⟨⟨[], .nothing found⟩, ?_⟩
        intro f hf s hfs
        rw [List.mem_singleton.1 hf,
          struct?_eq_none (by simpa using hkind) (by simpa using hsequence)] at hfs
        cases hfs

theorem gathered_collectItem (hP : Gatherable P) (found : Found) :
    ∀ item : Option Field, (∀ s, item = some s → P s) →
      (∃ new, Gathers P found (collectItem found item).2 new) ∧
        ∀ s, item = some s → s.attrTypeRef ∈ (collectItem found item).2.keys
  | none, _ => ⟨⟨[], .nothing found⟩, nofun⟩
  | some ⟨info, item, properties⟩, h => by
    have hs := h _ rfl
    obtain ⟨hgathers, hmem⟩ := gathers_takeStruct hP found hs
      fun found => gathered_collectAll hP found properties (hP.inside hs)
    refine ⟨hgathers, ?_⟩
    intro s heq
    cases heq
    exact hmem

theorem gathered_collectAll (hP : Gatherable P) (found : Found) :
    ∀ fields : List Field, AllNest P fields →
      Gathered P found (collectAll found fields).2 fields
  | [], _ => ⟨⟨[], .nothing found⟩, nofun⟩
  | f :: fs, h => by
    obtain ⟨hf, hfs⟩ := List.forall_mem_cons.1 h
    obtain ⟨⟨new, hnew⟩, hcovered⟩ := gathered_collect hP found f hf
    obtain ⟨⟨new', hnew'⟩, hcovered'⟩ := gathered_collectAll hP (collect found f).2 fs hfs
    simp only [collectAll]
    refine ⟨⟨new' ++ new, hnew.trans hnew'⟩, List.forall_mem_cons.2 ⟨?_, hcovered'⟩⟩
    exact fun s hs => hnew'.subset (hcovered f List.mem_cons_self s hs)

end

theorem gathered_collectLists (hP : Gatherable P) (found : Found) :
    ∀ lists : List (List Field), (∀ fields ∈ lists, AllNest P fields) →
      (collectLists found lists).1 = lists ∧
        (∃ new, Gathers P found (collectLists found lists).2 new) ∧
        ∀ fields ∈ lists, Covered (collectLists found lists).2.keys fields
  | [], _ => ⟨rfl, ⟨[], .nothing found⟩, nofun⟩
  | fields :: rest, h => by
    obtain ⟨hfields, hrest⟩ := List.forall_mem_cons.1 h
    have hsame := collectAll_fst found fields (hP.ne_empty hfields)
    obtain ⟨⟨new, hnew⟩, hcovered⟩ := gathered_collectAll hP found fields hfields
    obtain ⟨hsame', ⟨new', hnew'⟩, hcovered'⟩ :=
      gathered_collectLists hP (collectAll found fields).2 rest hrest
    simp only [collectLists]
    refine ⟨by rw [hsame, hsame'], ⟨new' ++ new, hnew.trans hnew'⟩, ?_⟩
    exact List.forall_mem_cons.2 ⟨hcovered.mono hnew'.subset, hcovered'⟩

/-! ## The collection -/

/-- What is gathered: structs of different names, one for each struct that is nested anywhere. -/
structure Gathering (P : Field → Prop) (lists : List (List Field)) (structs : List Field) :
    Prop where
  proper : ∀ s ∈ structs, P s
  nodup : (structs.map fun s => s.attrTypeRef).Nodup
  complete : ∀ fields ∈ lists, ∀ s, Nests s fields → ∃ t ∈ structs, t.attrTypeRef = s.attrTypeRef

/-- From lists whose structs can be gathered nothing is left out, and the lists stay as they are. -/
theorem collectLists_gathering (hP : Gatherable P) {lists : List (List Field)}
    (h : ∀ fields ∈ lists, AllNest P fields) :
    (collectLists {} lists).1 = lists ∧ Gathering P lists (collectLists {} lists).2.structs := by
  obtain ⟨hsame, ⟨new, hnew⟩, hcovered⟩ := gathered_collectLists hP {} lists h
  have hstructs : (collectLists {} lists).2.structs = new := by
    rw [hnew.structs, List.append_nil]
  have hkeys : (collectLists {} lists).2.keys.Perm (new.map fun s => s.attrTypeRef) := by
    have := hnew.keys
    rwa [List.append_nil] at this
  have hfound : ∀ key ∈ (collectLists {} lists).2.keys, ∃ s ∈ new, s.attrTypeRef = key :=
    fun key hkey => List.mem_map.1 (hkeys.subset hkey)
  refine ⟨hsame, ?_⟩
  rw [hstructs]
  refine ⟨hnew.proper, hkeys.nodup_iff.1 (hnew.nodup List.nodup_nil), ?_⟩
  intro fields hfields s hs
  refine hfound _ ?_
  -- Below a struct that was not taken the names are those below the one of its name that was.
  have hbelow : ∀ {fs : List Field}, Nests s fs → AllNest P fs →
      Covered (collectLists {} lists).2.keys fs →
      s.attrTypeRef ∈ (collectLists {} lists).2.keys := by
    intro fs hs
    induction hs with
    | here hf hs => exact fun _ hc => hc _ hf _ hs
    | inside hf ht _ ih =>
      intro hp hc
      obtain ⟨taken, htaken, href⟩ := hfound _ (hc _ hf _ ht)
      have hstruct := hp _ hf _ ht
      exact ih (hP.inside hstruct)
        (hP.shared (hnew.proper taken htaken) hstruct href (hnew.closed taken htaken))
  exact hbelow hs (h fields hfields) (hcovered fields hfields)

end

/-- Structs that can be told apart by their fingerprints can be gathered by their names. -/
theorem gatherable_properStruct {r : NameRegistry} (hr : r.Readable) :
    Gatherable (ProperStruct r) where
  named := fun hs => hs.ref_ne_empty hr
  inside := fun hs _ hg _ ht => (hs.properties _ hg).struct ht
  shared := by
    intro s t hs ht href keys hcovered g hg u hu
    obtain ⟨h, hh, hkept⟩ := List.mem_map.1
      (((ht.kept_perm_iff hr.toLegible hs).2 href.symm).subset (List.mem_map_of_mem hg))
    have hrefs := structRef?_eq_of_kept (ht.properties g hg).fits.here
      (hs.properties h hh).fits.here (ht.properties g hg).refs.here (hs.properties h hh).refs.here
      hkept.symm
    obtain ⟨v, hv, huv⟩ := Option.map_eq_some_iff.1
      (hrefs.symm.trans (by rw [structRef?, hu, Option.map_some]))
    exact huv ▸ hcovered h hh v hv

/-- What is collected where all structs can be told apart. -/
abbrev Collected (r : NameRegistry) : List (List Field) → List Field → Prop :=
  Gathering (ProperStruct r)

theorem collectLists_spec {r : NameRegistry} (hr : r.Readable) {lists : List (List Field)}
    (h : ∀ fields ∈ lists, ∀ f ∈ fields, Proper r f) :
    (collectLists {} lists).1 = lists ∧ Collected r lists (collectLists {} lists).2.structs :=
  collectLists_gathering (gatherable_properStruct hr)
    fun fields hfields f hf _ hs => (h fields hfields f hf).struct hs

/-- Structs under different names are sorted strictly. -/
theorem sorted_pairwise {found : Found}
    (hnodup : (found.structs.map fun s => s.attrTypeRef).Nodup) :
    (found.sorted.map fun s => s.attrTypeRef).Pairwise (· < ·) := by
  have hperm : found.sorted.Perm found.structs := sortedBy_perm _ _
  have horder : InOrder (fun f g : Field => decide (f.attrTypeRef < g.attrTypeRef)) found.sorted :=
    sortedBy_pairwise (ranks_of_text fun f : Field => f.attrTypeRef) fun _ _ => trivial
  have hdistinct : (found.sorted.map fun s => s.attrTypeRef).Nodup :=
    (hperm.map _).nodup_iff.2 hnodup
  rw [List.Nodup, List.pairwise_map] at hdistinct
  rw [List.pairwise_map]
  refine (horder.and hdistinct).imp fun {s t} h => ?_
  have hle : s.attrTypeRef ≤ t.attrTypeRef := not_below_iff.1 h.1
  exact Std.lt_of_le_of_ne hle h.2

end Field

end ApiModels
