/-
ApiModels.Proofs.Struct.Usable — what the names of structs are good for.

After a run of naming every nested struct is registered under the name that it
shows, whatever the fields (`NamedRun.registered`). Such a name is empty only
if a candidate for it was, which takes an empty path and names that are made of
underscores (`Candidate.of_empty`).

Collecting finds a struct for every name if structs of one fingerprint nest
structs of the same names, and so if the marks in names are apart
(`gatherable_nested`). The struct that is found has the fingerprint of the one
that it stands for.
-/
import ApiModels.Proofs.Field.Names
import ApiModels.Proofs.Struct.Collect
import ApiModels.Proofs.Struct.DeepShape

namespace ApiModels

namespace Field

/-! ## The tree that naming leaves -/

theorem Nests.trans {s t g : Field} {fields : List Field} (hs : Nests s fields)
    (hg : g ∈ s.properties) (ht : g.struct? = some t) : Nests t fields := by
  induction hs with
  | here hf hfs => exact .inside hf hfs (.here hg ht)
  | inside hf hfs _ ih => exact .inside hf hfs ih

theorem mem_assignAll {path : String} {f' : Field} {fields : List Field} :
    ∀ {r : NameRegistry}, f' ∈ (assignAll path r fields).1 →
      ∃ f ∈ fields, ∃ r₀, f' = (assign path r₀ f).1 := by
  induction fields with
  | nil => exact nofun
  | cons f fs ih =>
    intro r h
    rw [assignAll] at h
    rcases List.mem_cons.1 h with rfl | h
    · exact ⟨f, List.mem_cons_self, r, rfl⟩
    · obtain ⟨g, hg, r₀, heq⟩ := ih h
      exact ⟨g, List.mem_cons_of_mem _ hg, r₀, heq⟩

/-- A struct of a named field is one of the field before, with its properties named. -/
theorem struct?_assign {path : String} {r : NameRegistry} {f s' : Field}
    (h : (assign path r f).1.struct? = some s') :
    ∃ s, f.struct? = some s ∧ ∃ path', s'.properties = (assignAll path' r s.properties).1 := by
  obtain ⟨info, item, properties⟩ := f
  unfold assign at h
  dsimp only at h
  split at h
  · rename_i hkind
    have hkind : info.kind = .object := by simpa using hkind
    rw [struct?_of_object hkind] at h
    cases h
    exact ⟨_, struct?_of_object hkind, _, rfl⟩
  · rename_i hkind
    split at h
    · rename_i hsequence
      rw [struct?_of_sequence hsequence] at h
      cases item with
      | none => cases h
      | some i =>
        obtain ⟨_, _, _⟩ := i
        cases h
        exact ⟨_, struct?_of_sequence hsequence, _, rfl⟩
    · rename_i hsequence
      rw [struct?_eq_none (by simpa using hkind) (by simpa using hsequence)] at h
      cases h

theorem nests_assignAll {s' : Field} {fields' : List Field} (h : Nests s' fields') :
    ∀ {path r fields}, fields' = (assignAll path r fields).1 →
      ∃ s, Nests s fields ∧ ∃ path' r', s'.properties = (assignAll path' r' s.properties).1 := by
  induction h with
  | here hf hs =>
    rintro path r fields rfl
    obtain ⟨f, hmem, r₀, rfl⟩ := mem_assignAll hf
    obtain ⟨s, hs, path', heq⟩ := struct?_assign hs
    exact ⟨s, .here hmem hs, path', r₀, heq⟩
  | inside hf ht _ ih =>
    rintro path r fields rfl
    obtain ⟨f, hmem, r₀, rfl⟩ := mem_assignAll hf
    obtain ⟨t, ht, path', heq⟩ := struct?_assign ht
    obtain ⟨s, hs, hnamed⟩ := ih heq
    exact ⟨s, .inside hmem ht hs, hnamed⟩

theorem name_assign (path : String) (r : NameRegistry) (f : Field) :
    (assign path r f).1.name = f.name :=
  keeps_withoutRef.name_eq (restate_assign path r f)

theorem nameable_of_nests {fields : List Field} {s : Field} (hs : Nests s fields)
    (h : ∀ f ∈ fields, nameable f = true) : ∀ g ∈ s.properties, nameable g = true := by
  induction hs with
  | here hf hs => exact nameable_of_struct (h _ hf) hs
  | inside hf ht _ ih => exact ih (nameable_of_struct (h _ hf) ht)

/-! ## Where names of structs stand -/

/-- A field shows the name of a struct only if it nests one. -/
structure RefsOnStructs (f : Field) : Prop where
  own : f.RefsOnObjects
  item : f.kind ≠ .object → f.kind.isSequence = false → ∀ i, f.item = some i → i.attrTypeRef = ""

instance : DecidablePred RefsOnStructs := fun f =>
  decidable_of_iff ((f.isObject = false → f.attrTypeRef = "") ∧
      (f.kind ≠ .object → f.kind.isSequence = false → ∀ i ∈ f.item, i.attrTypeRef = ""))
    ⟨fun ⟨own, item⟩ => ⟨own, item⟩, fun h => ⟨h.own, h.item⟩⟩

theorem RefsOnStructs.assign {f : Field} (h : f.RefsOnStructs) (path : String)
    (r : NameRegistry) : (assign path r f).1.RefsOnStructs := by
  obtain ⟨info, item, properties⟩ := f
  unfold Field.assign
  dsimp only
  split
  · rename_i hkind
    have hkind : info.kind = .object := by simpa using hkind
    exact ⟨fun hobject => by simp [isObject, hkind] at hobject, fun hne => absurd hkind hne⟩
  · split
    · rename_i hsequence
      exact ⟨h.own, fun _ hno => by simp [hsequence] at hno⟩
    · exact h

/-- The nested name of a field is the name of its struct, if it has one that is not empty. -/
theorem RefsOnStructs.nestedRef_eq {f : Field} (h : f.RefsOnStructs)
    (hne : ∀ s, f.struct? = some s → s.attrTypeRef ≠ "") :
    f.nestedRef = f.structRef?.getD "" := by
  unfold structRef? nestedRef
  by_cases hobject : f.kind = .object
  · have hnamed := hne f (struct?_of_object hobject)
    rw [struct?_of_object hobject, if_neg (by simpa using hnamed)]
    rfl
  · have hempty : f.attrTypeRef = "" := h.own (by simpa [isObject] using hobject)
    rw [hempty, if_pos (String.isEmpty_iff.2 rfl)]
    cases hsequence : f.kind.isSequence with
    | true =>
      rw [struct?_of_sequence hsequence]
      cases f.item <;> rfl
    | false =>
      rw [struct?_eq_none hobject hsequence]
      cases hitem : f.item with
      | none => rfl
      | some i => exact h.item hobject hsequence i hitem

/-! ## Runs -/

/-- What a run of naming leaves: named lists, and a registry of their candidates' names. -/
structure NamedRun (calls : List NamingCall) (r : NameRegistry) (named : List (List Field))
    (r' : NameRegistry) : Prop where
  grown : r.Grown r'
  lists : ∀ fields ∈ named, ∃ c ∈ calls, nameableAll c.fields = true ∧ ∃ r₀,
    fields = (assignAll c.path r₀ c.fields).1 ∧ (assignAll c.path r₀ c.fields).2.Within r'
  names : ∀ name ∈ r'.names, name ∈ r.names ∨ ∃ c ∈ calls, ∃ wanted k,
    Candidate wanted c.path c.fields ∧ name = NameRegistry.numbered wanted k

theorem namedRun_of_nameEach {calls : List NamingCall} {r r' : NameRegistry}
    {named : List (List Field)} (hrun : nameEach r calls = (.ok named, r')) :
    NamedRun calls r named r' := by
  induction calls generalizing r named with
  | nil =>
    simp only [nameEach, Prod.mk.injEq, Except.ok.injEq] at hrun
    obtain ⟨rfl, rfl⟩ := hrun
    exact ⟨.refl r, List.forall_mem_nil _, fun _ hname => .inl hname⟩
  | cons c calls ih =>
    obtain ⟨fields, r₁, rest, hfirst, hrest, rfl⟩ := nameEach_cons_eq_ok_iff.1 hrun
    obtain ⟨hnameable, hassign⟩ := nameStructs_eq_ok_iff.1 hfirst
    have hgrown := grown_assignAll c.path r c.fields
    have hnames := names_assignAll c.path r c.fields
    rw [hassign] at hgrown hnames
    have hlater := ih hrest
    refine ⟨hgrown.trans hlater.grown, List.forall_mem_cons.2 ⟨?_, fun fs hfs => ?_⟩, ?_⟩
    · refine ⟨c, List.mem_cons_self, hnameable, r, ?_⟩
      rw [hassign]
      exact ⟨rfl, hlater.grown.within⟩
    · obtain ⟨c', hc', h⟩ := hlater.lists fs hfs
      exact ⟨c', List.mem_cons_of_mem _ hc', h⟩
    · intro name hname
      rcases hlater.names name hname with hname | ⟨c', hc', h⟩
      · rcases hnames name hname with hold | ⟨-, wanted, k, hwanted, heq⟩
        · exact .inl hold
        · exact .inr ⟨c, List.mem_cons_self, wanted, k, hwanted, heq⟩
      · exact .inr ⟨c', List.mem_cons_of_mem _ hc', h⟩

/-- A struct is nested in one of several lists that were named. -/
def NestsInAny (s : Field) (lists : List (List Field)) : Prop := ∃ fields ∈ lists, Nests s fields

theorem NestsInAny.trans {s t g : Field} {lists : List (List Field)} (hs : NestsInAny s lists)
    (hg : g ∈ s.properties) (ht : g.struct? = some t) : NestsInAny t lists :=
  hs.imp fun _ hs => ⟨hs.1, hs.2.trans hg ht⟩

/-- What makes names in a call tell structs apart, and where it finds names of structs. -/
structure NamingCall.ToldApart (m : Marks) (c : NamingCall) : Prop where
  names : ∀ s, Nests s c.fields → ∀ g ∈ s.properties, marksIn g.name.display ⊆ m.inName
  wanted : ∀ name, Candidate name c.path c.fields → marksIn name ⊆ m.inNested
  refs : ∀ s, Nests s c.fields → ∀ g ∈ s.properties, g.RefsOnStructs

/-- Where no mark stands in what names are made of, structs are told apart. -/
theorem NamingCall.Admissible.toldApart {c : NamingCall} (h : c.Admissible)
    (hnameable : nameableAll c.fields = true) : c.ToldApart ⟨[], []⟩ where
  names := by
    intro s hs g hg
    have hclear := Everywhere.of_nests (fun f hf => (h.ready hnameable f hf).clear) hs
    obtain ⟨name, hname, hunmarked⟩ := hclear.here.1 g hg
    rw [hname]
    exact List.subset_nil.2 hunmarked.marksIn_eq_nil
  wanted := fun _ hc =>
    List.subset_nil.2 (hc.unmarked h.path (h.ready hnameable)).marksIn_eq_nil
  refs := by
    intro s hs g hg
    have hunnamed := (Everywhere.of_nests h.unnamed hs).properties g hg
    exact ⟨fun _ => hunnamed.here, fun _ _ i hi => (hunnamed.item hi).here⟩

namespace NamedRun

variable {calls : List NamingCall} {r : NameRegistry} {named : List (List Field)} {s : Field}

/-- Every nested struct is registered under the name that it shows. -/
theorem registered {r₀ : NameRegistry} (h : NamedRun calls r₀ named r)
    (hs : NestsInAny s named) : r.nameOf? s.fingerprint = some s.attrTypeRef := by
  obtain ⟨fields, hfields, hs⟩ := hs
  obtain ⟨c, -, -, r₁, rfl, hwithin⟩ := h.lists fields hfields
  have hnamed := fun f hf => (named_assignAll c.path r₁ c.fields f hf).mono hwithin
  exact (Named.of_nests hnamed hs).1

theorem consistent (h : NamedRun calls {} named r) : r.Consistent :=
  h.grown.consistent NameRegistry.consistent_empty

/-- The name of a nested struct is a numbered form of a candidate. -/
theorem exists_wanted (h : NamedRun calls {} named r) (hs : NestsInAny s named) :
    ∃ c ∈ calls, ∃ wanted k, Candidate wanted c.path c.fields ∧
      s.attrTypeRef = NameRegistry.numbered wanted k := by
  have hmem := h.consistent.mem_names.2 ⟨_, h.registered hs⟩
  exact (h.names _ hmem).resolve_left nofun

theorem ref_ne_empty (h : NamedRun calls {} named r)
    (hwanted : ∀ c ∈ calls, ¬ Candidate "" c.path c.fields) (hs : NestsInAny s named) :
    s.attrTypeRef ≠ "" := by
  obtain ⟨c, hc, wanted, k, hcandidate, heq⟩ := h.exists_wanted hs
  rw [heq]
  refine NameRegistry.numbered_ne_empty ?_ k
  rintro rfl
  exact hwanted c hc hcandidate

/-- Where names are told apart, so are the properties of structs, and they show names in place. -/
theorem within {m : Marks} (h : NamedRun calls {} named r)
    (hne : ∀ s, NestsInAny s named → s.attrTypeRef ≠ "")
    (hm : ∀ c ∈ calls, c.ToldApart m) (hs : NestsInAny s named) :
    ∀ g ∈ s.properties, g.Within m ∧ g.RefsOnStructs := by
  intro g hg
  have hinside : ∀ t, g.struct? = some t → NestsInAny t named := fun _ ht => hs.trans hg ht
  obtain ⟨fields, hfields, hs⟩ := hs
  obtain ⟨c, hc, hnameable, r₁, rfl, -⟩ := h.lists fields hfields
  obtain ⟨s₀, hs₀, path', r', heq⟩ := nests_assignAll hs rfl
  obtain ⟨f, hf, r₂, rfl⟩ := mem_assignAll (heq ▸ hg)
  have hrefs := ((hm c hc).refs s₀ hs₀ f hf).assign path' r₂
  refine ⟨⟨?_, ?_⟩, hrefs⟩
  · have hname := isText_of_nameable
      (nameable_of_nests hs₀ (nameableAll_iff.1 hnameable) f hf)
    obtain ⟨name, hname⟩ := Scalar.isText_iff.1 hname
    have hmarks := (hm c hc).names s₀ hs₀ f hf
    rw [hname] at hmarks
    exact ⟨name, (name_assign _ _ _).trans hname, hmarks⟩
  · rw [hrefs.nestedRef_eq fun t ht => hne t (hinside t ht), structRef?]
    cases ht : (Field.assign path' r₂ f).1.struct? with
    | none => exact List.nil_subset _
    | some t =>
      obtain ⟨c', hc', wanted, k, hcandidate, heq⟩ := h.exists_wanted (hinside t ht)
      rw [Option.map_some, Option.getD_some, heq, NameRegistry.marksIn_numbered]
      exact (hm c' hc').wanted wanted hcandidate

/-- Structs of one name have one fingerprint, and so nest structs of the same names. -/
theorem gatherable_nested {m : Marks} (h : NamedRun calls {} named r) (happart : m.Apart)
    (hne : ∀ s, NestsInAny s named → s.attrTypeRef ≠ "")
    (hm : ∀ c ∈ calls, c.ToldApart m) : Gatherable fun s => NestsInAny s named where
  named := fun hs => hne _ hs
  inside := fun hs _ hg _ ht => hs.trans hg ht
  shared := by
    intro s t hs ht href keys hcovered g hg u hu
    have hwithin := fun {s} (hs : NestsInAny s named) => h.within hne hm hs
    have hinside : ∀ {s}, NestsInAny s named → ∀ g ∈ s.properties,
        g.nestedRef = g.structRef?.getD "" := fun hs g hg =>
      (hwithin hs g hg).2.nestedRef_eq fun v hv => hne v (hs.trans hg hv)
    have hfingerprint : t.fingerprint = s.fingerprint :=
      h.consistent.nameOf?_injective (h.registered ht) (href ▸ h.registered hs)
    have hperm := (fingerprintOf_eq_iff_of_apart happart (fun g hg => (hwithin ht g hg).1)
      fun g hg => (hwithin hs g hg).1).1 hfingerprint
    obtain ⟨q, hq, hkept⟩ := List.mem_map.1 (hperm.subset (List.mem_map_of_mem hg))
    have hnested : q.nestedRef = g.nestedRef := congrArg (fun k => k.2.2) hkept
    rw [hinside hs q hq, hinside ht g hg, structRef?, structRef?, hu] at hnested
    have hu' : u.attrTypeRef ≠ "" := hne u (ht.trans hg hu)
    cases hv : q.struct? with
    | none =>
      rw [hv] at hnested
      exact absurd hnested.symm hu'
    | some v =>
      rw [hv] at hnested
      have href : v.attrTypeRef = u.attrTypeRef := hnested
      exact href ▸ hcovered q hq v hv

end NamedRun

/-! ## Names that can be used -/

/-- A candidate is empty only where no path is given and a field is named by underscores. -/
theorem Candidate.of_empty {path : String} {fields : List Field} (h : Candidate "" path fields) :
    path = "" ∧ ∃ f ∈ fields, f.struct?.isSome = true ∧ ∀ c ∈ f.name.display.toList, c = '_' := by
  have hunderscores : ∀ {name : String}, Name.titled name = "" → ∀ c ∈ name.toList, c = '_' :=
    fun hempty c hc => by_contra fun hne => Name.titled_ne_empty ⟨c, hc, hne⟩ hempty
  induction h with
  | here hf hs hc =>
    unfold candidate at hc
    split at hc
    · obtain ⟨hpath, htitled⟩ := String.append_eq_empty_iff.1 hc.symm
      exact ⟨hpath, _, hf, by rw [hs]; rfl, hunderscores htitled⟩
    · rename_i href
      exact absurd (String.isEmpty_iff.2 hc.symm) href
  | inside hf hs _ ih =>
    obtain ⟨hpath, htitled⟩ := String.append_eq_empty_iff.1 ih.1
    exact ⟨hpath, _, hf, by rw [hs]; rfl, hunderscores htitled⟩

/--
In a run from the empty registry every nested struct is registered under the name that it shows. No
name is empty if no candidate is. If the marks in names are apart besides, collecting leaves lists
as they are and finds, for each struct in them, one of its name and its fingerprint.
-/
theorem structs_usable (calls : List NamingCall) :
    ((∃ named r, nameEach {} calls = (.ok named, r)) ↔
      ∀ c ∈ calls, nameableAll c.fields = true) ∧
    ∀ named r, nameEach {} calls = (.ok named, r) →
      (∀ s, NestsInAny s named → r.byName.lookup s.attrTypeRef = some s.fingerprint) ∧
      ((∀ c ∈ calls, ¬ Candidate "" c.path c.fields) →
        (∀ s, NestsInAny s named → s.attrTypeRef ≠ "") ∧
        ∀ m : Marks, m.Apart → (∀ c ∈ calls, c.ToldApart m) → ∀ lists ⊆ named,
          (collectLists {} lists).1 = lists ∧
          ∀ s, NestsInAny s lists → ∃ t ∈ (collectLists {} lists).2.sorted,
            t.attrTypeRef = s.attrTypeRef ∧ t.fingerprint = s.fingerprint) := by
  refine ⟨nameEach_succeeds_iff, fun named r hrun => ?_⟩
  have h := namedRun_of_nameEach hrun
  refine ⟨fun s hs => h.consistent.nameOf?_eq_some_iff.1 (h.registered hs), fun hwanted => ?_⟩
  have hne := fun s (hs : NestsInAny s named) => h.ref_ne_empty hwanted hs
  refine ⟨hne, fun m hm hcalls lists hlists => ?_⟩
  obtain ⟨hsame, hgathering⟩ := collectLists_gathering (h.gatherable_nested hm hne hcalls)
    fun fields hfields f hf s hs => ⟨fields, hlists hfields, .here hf hs⟩
  refine ⟨hsame, fun s ⟨fields, hfields, hs⟩ => ?_⟩
  obtain ⟨t, ht, href⟩ := hgathering.complete fields hfields s hs
  refine ⟨t, mem_sortedBy.2 ht, href, ?_⟩
  have hregistered := h.registered (hgathering.proper t ht)
  rw [href] at hregistered
  exact h.consistent.nameOf?_injective hregistered (h.registered ⟨fields, hlists hfields, hs⟩)

theorem structs_usable_sample :
    (∀ c ∈ ownerCalls, ¬ Candidate "" c.path c.fields) ∧
    (∀ c ∈ ownerCalls, c.ToldApart ⟨[], []⟩) ∧
    ∃ named r, nameEach {} ownerCalls = (.ok named, r) ∧ r.names = ["VmOwner", "DiskOwner"] ∧
      (∀ s, NestsInAny s named →
        r.byName.lookup s.attrTypeRef = some s.fingerprint ∧ s.attrTypeRef ≠ "") ∧
      (collectLists {} named).1 = named ∧
      ∀ s, NestsInAny s named → ∃ t ∈ (collectLists {} named).2.sorted,
        t.attrTypeRef = s.attrTypeRef ∧ t.fingerprint = s.fingerprint := by
  have hnameable : ∀ c ∈ ownerCalls, nameableAll c.fields = true := by decide
  have hadmissible : ∀ c ∈ ownerCalls, c.Admissible := by decide
  have hwanted : ∀ c ∈ ownerCalls, ¬ Candidate "" c.path c.fields := by
    have hpath : ∀ c ∈ ownerCalls, c.path ≠ "" := by decide
    exact fun c hc hcandidate => hpath c hc hcandidate.of_empty.1
  have hcalls : ∀ c ∈ ownerCalls, c.ToldApart ⟨[], []⟩ := fun c hc =>
    (hadmissible c hc).toldApart (hnameable c hc)
  obtain ⟨hsucceeds, husable⟩ := structs_usable ownerCalls
  obtain ⟨named, r, hrun⟩ := hsucceeds.2 hnameable
  obtain ⟨hregistered, hnames⟩ := husable named r hrun
  obtain ⟨hne, hcollected⟩ := hnames hwanted
  obtain ⟨hsame, hfound⟩ := hcollected ⟨[], []⟩ ⟨by decide, by decide, by decide, by decide⟩ hcalls
    named (List.Subset.refl _)
  have hr : r.names = ["VmOwner", "DiskOwner"] := by
    have hcomputed : (nameEach {} ownerCalls).2.names = ["VmOwner", "DiskOwner"] := rfl
    rwa [hrun] at hcomputed
  exact ⟨hwanted, hcalls, named, r, hrun, hr, fun s hs => ⟨hregistered s hs, hne s hs⟩, hsame,
    hfound⟩

namespace Sample

/-- An object whose name has no letters. -/
def underscored : NamingCall :=
  ⟨"", [{ name := .text "_", type := .object, properties := [.leaf { name := .text "by" }] }]⟩

/-- Two objects, of which the first has a property that reads like those of the second. -/
def colliding : NamingCall :=
  ⟨"", [{ name := .text "a", type := .object
          properties := [.leaf { name := .text "a:object:In|b" }] },
        { name := .text "b", type := .object
          properties :=
            [{ name := .text "a", type := .object, refName := "In"
               properties := [.leaf { name := .text "x" }] },
             .leaf { name := .text "b" }] }]⟩

end Sample

/-- A struct may get an empty name, and one with a name may not be found by it. -/
theorem structs_unusable :
    (∃ named r, nameEach {} [Sample.underscored] = (.ok named, r) ∧
      ∃ s, NestsInAny s named ∧ s.attrTypeRef = "") ∧
    ∃ named r, nameEach {} [Sample.colliding] = (.ok named, r) ∧
      ∃ s, NestsInAny s named ∧ s.attrTypeRef = "In" ∧
        ∀ t ∈ (collectLists {} named).2.sorted, t.attrTypeRef ≠ s.attrTypeRef := by
  constructor
  · exact ⟨_, _, rfl, _, ⟨_, List.mem_cons_self, .here List.mem_cons_self rfl⟩, rfl⟩
  · have hcollected : ∀ {structs : List Field}, structs.map (fun t => t.attrTypeRef) = ["A"] →
        ∀ t ∈ structs, t.attrTypeRef ≠ "In" := by
      intro structs hkeys t ht href
      have hin : "In" ∈ ["A"] := hkeys ▸ href ▸ List.mem_map_of_mem ht
      exact absurd hin (by decide)
    refine ⟨_, _, rfl, _, ⟨_, List.mem_cons_self, .inside
      (List.mem_cons_of_mem _ List.mem_cons_self) rfl (.here List.mem_cons_self rfl)⟩, rfl, ?_⟩
    exact hcollected rfl

end Field

end ApiModels
