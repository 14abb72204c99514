/-
ApiModels.Proofs.Struct.Registry — a registry of names is a bijection that
only grows.

`uniqueName_isFree`: the search for a name ends at a free one. The numbered
forms of a candidate are all different, and one more of them is tried than
names are taken, so they cannot all be taken. `Searches` is the same search
without a bound, and `uniqueName_least` says that it ends, at the first name
that is free, whatever the names are that were given.

`Consistent` says that the two maps of a registry are inverse to each other
and hold no key twice. It holds of the empty registry, and `register` keeps
it (`register_consistent`): a name that is free for a fingerprint without a
name is free altogether. `Within` says that a registry has grown to another;
what a fingerprint is called never changes (`Within.nameOf?`).

`registerEach_bijection` is what this comes to for a run of calls from the
empty registry on, whatever the fingerprints and the candidates.
-/
import ApiModels.Struct.Registry
import Mathlib.Data.List.Dedup
import Std.Data.String.ToNat

namespace ApiModels

namespace NameRegistry

/-! ## The search for a free name -/

theorem numbered_injective (candidate : String) {m n : Nat}
    (h : numbered candidate m = numbered candidate n) : m = n := by
  cases m with
  | zero =>
    cases n with
    | zero => rfl
    | succ n => exact absurd (String.append_eq_left_iff.1 h.symm) Nat.repr_ne_empty
  | succ m =>
    cases n with
    | zero => exact absurd (String.append_eq_left_iff.1 h) Nat.repr_ne_empty
    | succ n =>
      have hrepr : Nat.repr (m + 2) = Nat.repr (n + 2) := (String.append_right_inj _).1 h
      have := Nat.repr_injective hrepr
      omega

/-- The search gives a numbered form, all before it are taken, and it stops early only if free. -/
theorem firstFree_spec (byName : List (String × String)) (candidate fingerprint : String) :
    ∀ tries n, ∃ k, k ≤ tries ∧
      firstFree byName candidate fingerprint tries n = numbered candidate (n + k) ∧
      (∀ j < k, isFree byName fingerprint (numbered candidate (n + j)) = false) ∧
      (k < tries → isFree byName fingerprint (numbered candidate (n + k)) = true)
  | 0, n => ⟨0, Nat.le_refl _, rfl, by simp, by simp⟩
  | tries + 1, n => by
    cases hfree : isFree byName fingerprint (numbered candidate n) with
    | true =>
      exact ⟨0, by omega, by simp [firstFree, hfree], by simp, fun _ => by simpa using hfree⟩
    | false =>
      obtain ⟨k, hk, heq, htaken, hstop⟩ :=
        firstFree_spec byName candidate fingerprint tries (n + 1)
      refine ⟨k + 1, by omega, ?_, ?_, ?_⟩
      · rw [firstFree, hfree, if_neg (by simp), heq]
        congr 1
        omega
      · intro j hj
        cases j with
        | zero => simpa using hfree
        | succ j =>
          rw [show n + (j + 1) = n + 1 + j by omega]
          exact htaken j (by omega)
      · intro hlt
        rw [show n + (k + 1) = n + 1 + k by omega]
        exact hstop (by omega)

theorem mem_keys_of_not_isFree {byName : List (String × String)} {fingerprint name : String}
    (h : isFree byName fingerprint name = false) : name ∈ byName.map Prod.fst := by
  unfold isFree at h
  split at h
  · rename_i owner howner
    obtain ⟨l₁, l₂, heq, -⟩ := List.lookup_eq_some_iff.1 howner
    simp [heq]
  · simp at h

/-- The numbered forms are all different, so those that are taken are as many names. -/
theorem le_keys_of_taken {byName : List (String × String)} {candidate fingerprint : String}
    {n : Nat} (htaken : ∀ m < n, isFree byName fingerprint (numbered candidate m) = false) :
    n ≤ (byName.map Prod.fst).dedup.length := by
  have hsubset : (List.range n).map (numbered candidate) ⊆ (byName.map Prod.fst).dedup := by
    intro name hname
    obtain ⟨m, hm, rfl⟩ := List.mem_map.1 hname
    exact List.mem_dedup.2 (mem_keys_of_not_isFree (htaken m (List.mem_range.1 hm)))
  have hdistinct : ((List.range n).map (numbered candidate)).Nodup :=
    List.Pairwise.map _ (fun a b hab heq => hab (numbered_injective candidate heq))
      List.nodup_range
  simpa using hdistinct.length_le_of_subset hsubset

/-- The search for a name ends at a free one. -/
theorem uniqueName_isFree (byName : List (String × String)) (candidate fingerprint : String) :
    isFree byName fingerprint (uniqueName byName candidate fingerprint) = true := by
  obtain ⟨k, hk, heq, htaken, hstop⟩ :=
    firstFree_spec byName candidate fingerprint byName.length 0
  simp only [Nat.zero_add] at heq htaken hstop
  rw [uniqueName, heq]
  rcases Nat.lt_or_eq_of_le hk with hlt | rfl
  · exact hstop hlt
  · cases hfree : isFree byName fingerprint (numbered candidate byName.length) with
    | true => rfl
    | false =>
      -- All of them taken would be one more name than there are.
      have hall : ∀ m < byName.length + 1,
          isFree byName fingerprint (numbered candidate m) = false := by
        intro m hm
        rcases Nat.lt_or_eq_of_le (Nat.le_of_lt_succ hm) with hm | rfl
        · exact htaken m hm
        · exact hfree
      have hmore := le_keys_of_taken hall
      have hlength := (List.dedup_sublist (byName.map Prod.fst)).length_le
      rw [List.length_map] at hlength
      omega

theorem uniqueName_eq_numbered (byName : List (String × String)) (candidate fingerprint : String) :
    ∃ k, uniqueName byName candidate fingerprint = numbered candidate k := by
  obtain ⟨k, -, heq, -⟩ := firstFree_spec byName candidate fingerprint byName.length 0
  exact ⟨_, heq⟩

/-! ## The least free name -/

/-- A name is not given yet, or it is given to the fingerprint itself. -/
def Available (byName : List (String × String)) (fingerprint name : String) : Prop :=
  byName.lookup name = none ∨ byName.lookup name = some fingerprint

theorem isFree_iff {byName : List (String × String)} {fingerprint name : String} :
    isFree byName fingerprint name = true ↔ Available byName fingerprint name := by
  unfold isFree Available
  cases byName.lookup name with
  | none => simp
  | some owner => simp

/--
The search without a bound, from the `n`-th name on: a name that is not available costs a probe and
is passed over, and one that is available is found by the last probe.
-/
inductive Searches (byName : List (String × String)) (candidate fingerprint : String) :
    (n probes : Nat) → (name : String) → Prop where
  | stop {n} (h : Available byName fingerprint (numbered candidate n)) :
      Searches byName candidate fingerprint n 1 (numbered candidate n)
  | next {n probes name} (htaken : ¬ Available byName fingerprint (numbered candidate n))
      (h : Searches byName candidate fingerprint (n + 1) probes name) :
      Searches byName candidate fingerprint n (probes + 1) name

/-- The search comes to the first name that is available, and makes one probe for each name. -/
theorem searches_iff {byName : List (String × String)} {candidate fingerprint : String}
    {n probes : Nat} {name : String} :
    Searches byName candidate fingerprint n probes name ↔
      ∃ k, Available byName fingerprint (numbered candidate (n + k)) ∧
        (∀ m < k, ¬ Available byName fingerprint (numbered candidate (n + m))) ∧
        probes = k + 1 ∧ name = numbered candidate (n + k) := by
  constructor
  · intro h
    induction h with
    | stop h => exact ⟨0, h, by simp, rfl, rfl⟩
    | @next n probes name htaken _ ih =>
      obtain ⟨k, havailable, hbefore, rfl, rfl⟩ := ih
      have hshift : ∀ m, n + 1 + m = n + (m + 1) := by omega
      simp only [hshift] at havailable hbefore ⊢
      refine ⟨k + 1, havailable, fun m hm => ?_, rfl, rfl⟩
      cases m with
      | zero => exact htaken
      | succ m => exact hbefore m (by omega)
  · rintro ⟨k, havailable, hbefore, rfl, rfl⟩
    induction k generalizing n with
    | zero => exact .stop havailable
    | succ k ih =>
      have hshift : ∀ m, n + (m + 1) = n + 1 + m := by omega
      rw [hshift] at havailable ⊢
      refine .next (hbefore 0 (by omega)) (ih havailable fun m hm => ?_)
      rw [← hshift]
      exact hbefore (m + 1) (by omega)

/--
The name that is found is the first of the numbered names that is available, whatever names are
given. The search without a bound comes to it and to nothing else, with no more probes than there
are names, and one.
-/
theorem uniqueName_least (byName : List (String × String)) (candidate fingerprint : String) :
    ∃ n, uniqueName byName candidate fingerprint = numbered candidate n ∧
      Available byName fingerprint (numbered candidate n) ∧
      (∀ m < n, ¬ Available byName fingerprint (numbered candidate m)) ∧
      n + 1 ≤ (byName.map Prod.fst).dedup.length + 1 ∧
      ∀ probes name, Searches byName candidate fingerprint 0 probes name ↔
        probes = n + 1 ∧ name = numbered candidate n := by
  obtain ⟨n, -, heq, htaken, -⟩ := firstFree_spec byName candidate fingerprint byName.length 0
  simp only [Nat.zero_add] at heq htaken
  have hfound : uniqueName byName candidate fingerprint = numbered candidate n := heq
  have havailable : Available byName fingerprint (numbered candidate n) :=
    isFree_iff.1 (hfound ▸ uniqueName_isFree byName candidate fingerprint)
  have hbefore : ∀ m < n, ¬ Available byName fingerprint (numbered candidate m) := by
    intro m hm h
    have hfree := isFree_iff.2 h
    rw [htaken m hm] at hfree
    cases hfree
  refine ⟨n, hfound, havailable, hbefore, Nat.succ_le_succ (le_keys_of_taken htaken), ?_⟩
  intro probes name
  rw [searches_iff]
  simp only [Nat.zero_add]
  constructor
  · rintro ⟨k, hk, hbeforeK, rfl, rfl⟩
    -- Two first available names are the same one.
    obtain rfl : k = n := by
      rcases Nat.lt_trichotomy k n with hlt | heq | hgt
      · exact absurd hk (hbefore k hlt)
      · exact heq
      · exact absurd havailable (hbeforeK n hgt)
    exact ⟨rfl, rfl⟩
  · rintro ⟨rfl, rfl⟩
    exact ⟨n, havailable, hbefore, rfl, rfl⟩

/-- A number is put behind a candidate that ends in digits as behind any other. -/
example : uniqueName [("Owner2", "a"), ("Owner22", "b"), ("Owner", "c")] "Owner2" "d" =
    "Owner23" := by decide +kernel

/-! ## Registries whose maps agree -/

/-- The name of a fingerprint. -/
def nameOf? (r : NameRegistry) (fingerprint : String) : Option String :=
  r.byFingerprint.lookup fingerprint

/-- The names given so far. -/
def names (r : NameRegistry) : List String := r.byName.map Prod.fst

/-- The two maps of a registry are inverse to each other, and neither holds a key twice. -/
structure Consistent (r : NameRegistry) : Prop where
  inverse : r.byName = r.byFingerprint.map Prod.swap
  names_nodup : r.names.Nodup
  fingerprints_nodup : (r.byFingerprint.map Prod.fst).Nodup

/-- A registry has grown to another one: what was registered stands in the same place. -/
structure Within (r r' : NameRegistry) : Prop where
  byFingerprint : r.byFingerprint <+: r'.byFingerprint
  byName : r.byName <+: r'.byName

namespace Within

theorem refl (r : NameRegistry) : r.Within r := ⟨List.prefix_refl _, List.prefix_refl _⟩

theorem trans {r r' r'' : NameRegistry} (h : r.Within r') (h' : r'.Within r'') : r.Within r'' :=
  ⟨h.byFingerprint.trans h'.byFingerprint, h.byName.trans h'.byName⟩

/-- The name of a fingerprint never changes. -/
theorem nameOf? {r r' : NameRegistry} (h : r.Within r') {fingerprint name : String}
    (hname : r.nameOf? fingerprint = some name) : r'.nameOf? fingerprint = some name := by
  obtain ⟨more, hmore⟩ := h.byFingerprint
  unfold NameRegistry.nameOf? at hname ⊢
  rw [← hmore, List.lookup_append, hname]
  rfl

end Within

theorem consistent_empty : Consistent {} := ⟨rfl, List.nodup_nil, List.nodup_nil⟩

/-- Among pairs with distinct keys, looking a key up finds its pair. -/
theorem lookup_eq_some_iff_mem {pairs : List (String × String)}
    (hkeys : (pairs.map Prod.fst).Nodup) {key value : String} :
    pairs.lookup key = some value ↔ (key, value) ∈ pairs := by
  constructor
  · intro hlookup
    obtain ⟨l₁, l₂, rfl, -⟩ := List.lookup_eq_some_iff.1 hlookup
    simp
  · intro hmem
    obtain ⟨l₁, l₂, rfl⟩ := List.append_of_mem hmem
    refine List.lookup_eq_some_iff.2 ⟨l₁, l₂, rfl, ?_⟩
    intro p hp
    rw [List.map_append, List.map_cons] at hkeys
    have hne := (List.nodup_append.1 hkeys).2.2 p.1 (List.mem_map_of_mem hp) key (by simp)
    simpa using hne.symm

namespace Consistent

variable {r : NameRegistry}

theorem mem_byName (h : r.Consistent) {fingerprint name : String} :
    (name, fingerprint) ∈ r.byName ↔ (fingerprint, name) ∈ r.byFingerprint := by
  rw [h.inverse]
  constructor
  · intro hmem
    obtain ⟨p, hp, heq⟩ := List.mem_map.1 hmem
    rwa [show (fingerprint, name) = p from congrArg Prod.swap heq.symm]
  · intro hmem
    exact List.mem_map.2 ⟨_, hmem, rfl⟩

theorem nameOf?_eq_some_iff (h : r.Consistent) {fingerprint name : String} :
    r.nameOf? fingerprint = some name ↔ r.byName.lookup name = some fingerprint := by
  rw [nameOf?, lookup_eq_some_iff_mem h.fingerprints_nodup, lookup_eq_some_iff_mem h.names_nodup,
    h.mem_byName]

theorem mem_names (h : r.Consistent) {name : String} :
    name ∈ r.names ↔ ∃ fingerprint, r.nameOf? fingerprint = some name := by
  simp only [h.nameOf?_eq_some_iff, lookup_eq_some_iff_mem h.names_nodup]
  simp [names]

/-- Different fingerprints have different names. -/
theorem nameOf?_injective (h : r.Consistent) {fingerprint fingerprint' name : String}
    (hname : r.nameOf? fingerprint = some name) (hname' : r.nameOf? fingerprint' = some name) :
    fingerprint = fingerprint' := by
  rw [h.nameOf?_eq_some_iff] at hname hname'
  exact Option.some.inj (hname.symm.trans hname')

end Consistent

/-! ## Registering -/

theorem register_of_nameOf? {r : NameRegistry} {fingerprint name : String}
    (h : r.nameOf? fingerprint = some name) (candidate : String) :
    r.register fingerprint candidate = (name, r) := by
  unfold nameOf? at h
  simp [register, h]

theorem register_of_nameOf?_none {r : NameRegistry} {fingerprint : String}
    (h : r.nameOf? fingerprint = none) (candidate : String) :
    r.register fingerprint candidate =
      (uniqueName r.byName candidate fingerprint,
        { byFingerprint :=
            r.byFingerprint ++ [(fingerprint, uniqueName r.byName candidate fingerprint)]
          byName := r.byName ++ [(uniqueName r.byName candidate fingerprint, fingerprint)] }) := by
  unfold nameOf? at h
  simp [register, h]

theorem within_register (r : NameRegistry) (fingerprint candidate : String) :
    r.Within (r.register fingerprint candidate).2 := by
  cases h : r.nameOf? fingerprint with
  | some name => rw [register_of_nameOf? h]; exact .refl r
  | none => rw [register_of_nameOf?_none h]; exact ⟨List.prefix_append _ _, List.prefix_append _ _⟩

/-- Afterwards the fingerprint has the name that was given. -/
theorem nameOf?_register (r : NameRegistry) (fingerprint candidate : String) :
    (r.register fingerprint candidate).2.nameOf? fingerprint =
      some (r.register fingerprint candidate).1 := by
  cases h : r.nameOf? fingerprint with
  | some name => rw [register_of_nameOf? h]; exact h
  | none =>
    rw [register_of_nameOf?_none h]
    unfold nameOf? at h ⊢
    simp [List.lookup_append, h]

/-- A name that registering adds is the one given, and a numbered form of the candidate. -/
theorem mem_names_register {r : NameRegistry} {fingerprint candidate name : String}
    (h : name ∈ (r.register fingerprint candidate).2.names) :
    name ∈ r.names ∨
      name = (r.register fingerprint candidate).1 ∧ ∃ k, name = numbered candidate k := by
  cases hknown : r.nameOf? fingerprint with
  | some known => rw [register_of_nameOf? hknown] at h; exact .inl h
  | none =>
    rw [register_of_nameOf?_none hknown] at h ⊢
    rw [names, List.map_append, List.mem_append] at h
    rcases h with h | h
    · exact .inl h
    · have hname : name = uniqueName r.byName candidate fingerprint := by simpa using h
      exact .inr ⟨hname, hname ▸ uniqueName_eq_numbered _ _ _⟩

/-- Registering keeps the two maps inverse to each other. -/
theorem register_consistent {r : NameRegistry} (h : r.Consistent) (fingerprint candidate : String) :
    (r.register fingerprint candidate).2.Consistent := by
  cases hknown : r.nameOf? fingerprint with
  | some name => rw [register_of_nameOf? hknown]; exact h
  | none =>
    rw [register_of_nameOf?_none hknown]
    have hfree := uniqueName_isFree r.byName candidate fingerprint
    generalize uniqueName r.byName candidate fingerprint = name at hfree ⊢
    have hfingerprint : fingerprint ∉ r.byFingerprint.map Prod.fst := by
      have := List.lookup_eq_none_iff.1 hknown
      intro hmem
      obtain ⟨p, hp, rfl⟩ := List.mem_map.1 hmem
      simpa using this p hp
    -- The only owner that leaves a name free has no name yet.
    have hname : name ∉ r.names := by
      intro hmem
      obtain ⟨owner, howner⟩ := h.mem_names.1 hmem
      have hne : owner ≠ fingerprint := by
        rintro rfl
        simp [hknown] at howner
      simp [isFree, h.nameOf?_eq_some_iff.1 howner, hne] at hfree
    refine ⟨by simp [h.inverse], ?_, ?_⟩
    · rw [names, List.map_append, List.nodup_append]
      refine ⟨h.names_nodup, by simp, ?_⟩
      intro a ha b hb
      have hb : b = name := by simpa using hb
      rintro rfl
      exact hname (hb ▸ ha)
    · rw [List.map_append, List.nodup_append]
      refine ⟨h.fingerprints_nodup, by simp, ?_⟩
      intro a ha b hb
      have hb : b = fingerprint := by simpa using hb
      rintro rfl
      exact hfingerprint (hb ▸ ha)

/-- Registering leaves the fingerprints that were there and the one that it is called with. -/
theorem mem_fingerprints_register {r : NameRegistry} {fingerprint candidate other : String} :
    other ∈ (r.register fingerprint candidate).2.byFingerprint.map Prod.fst ↔
      other ∈ r.byFingerprint.map Prod.fst ∨ other = fingerprint := by
  cases hknown : r.nameOf? fingerprint with
  | none => simp [register_of_nameOf?_none hknown]
  | some name =>
    rw [register_of_nameOf? hknown]
    obtain ⟨before, after, hsplit, -⟩ := List.lookup_eq_some_iff.1 hknown
    have hmem : fingerprint ∈ r.byFingerprint.map Prod.fst := by simp [hsplit]
    exact ⟨.inl, fun h => h.elim id fun heq => heq ▸ hmem⟩

/-! ## Runs of registering -/

/-- The registry after some calls, each with a fingerprint and a candidate for its name. -/
def registerEach (r : NameRegistry) (calls : List (String × String)) : NameRegistry :=
  calls.foldl (fun r call => (r.register call.1 call.2).2) r

theorem registerEach_consistent {r : NameRegistry} (h : r.Consistent)
    (calls : List (String × String)) : (r.registerEach calls).Consistent :=
  List.foldlRecOn calls _ h fun _ h call _ => register_consistent h call.1 call.2

theorem within_registerEach (r : NameRegistry) (calls : List (String × String)) :
    r.Within (r.registerEach calls) :=
  List.foldlRecOn calls _ (.refl r) fun _ h call _ => h.trans (within_register _ call.1 call.2)

theorem mem_fingerprints_registerEach {fingerprint : String} {calls : List (String × String)} :
    ∀ {r : NameRegistry}, fingerprint ∈ (r.registerEach calls).byFingerprint.map Prod.fst ↔
      fingerprint ∈ r.byFingerprint.map Prod.fst ∨ fingerprint ∈ calls.map Prod.fst := by
  induction calls with
  | nil => simp [registerEach]
  | cons call rest ih =>
    intro r
    rw [registerEach, List.foldl_cons, ← registerEach, ih, mem_fingerprints_register,
      List.map_cons, List.mem_cons, or_assoc]

/--
After any calls from the empty registry on, names and fingerprints stand for one another, and there
are as many names as fingerprints were registered. A call gives the name that its fingerprint has
from then on, and no later call changes a name or takes it away.
-/
theorem registerEach_bijection (calls : List (String × String)) :
    (∀ fingerprint name, (registerEach {} calls).nameOf? fingerprint = some name ↔
      (registerEach {} calls).byName.lookup name = some fingerprint) ∧
    (registerEach {} calls).names.Nodup ∧
    (registerEach {} calls).size = (calls.map Prod.fst).dedup.length ∧
    (∀ fingerprint candidate more,
      (((registerEach {} calls).register fingerprint candidate).2.registerEach more).nameOf?
          fingerprint = some ((registerEach {} calls).register fingerprint candidate).1) ∧
    ∀ fingerprint name more, (registerEach {} calls).nameOf? fingerprint = some name →
      ((registerEach {} calls).registerEach more).nameOf? fingerprint = some name := by
  have hr : (registerEach {} calls).Consistent := registerEach_consistent consistent_empty calls
  refine ⟨fun _ _ => hr.nameOf?_eq_some_iff, hr.names_nodup, ?_, ?_, ?_⟩
  · have hmem : ∀ fingerprint,
        fingerprint ∈ (registerEach {} calls).byFingerprint.map Prod.fst ↔
          fingerprint ∈ (calls.map Prod.fst).dedup := by
      intro fingerprint
      rw [mem_fingerprints_registerEach, List.mem_dedup]
      simp
    have hperm := (List.perm_ext_iff_of_nodup hr.fingerprints_nodup (List.nodup_dedup _)).2 hmem
    rw [← hperm.length_eq, List.length_map, size, hr.inverse, List.length_map]
  · intro fingerprint candidate more
    exact (within_registerEach _ more).nameOf? (nameOf?_register _ fingerprint candidate)
  · exact fun _ _ more hname => (within_registerEach _ more).nameOf? hname

/-- A candidate that is the numbered form of another one gets a number of its own, for good. -/
theorem registerEach_bijection_owners :
    let r := registerEach {} [("a", "Owner"), ("b", "Owner"), ("c", "Owner2"), ("a", "Keeper")]
    r.names = ["Owner", "Owner2", "Owner22"] ∧ r.nameOf? "c" = some "Owner22" ∧
      ∀ more, (r.registerEach more).nameOf? "c" = some "Owner22" := by
  have hname : (registerEach {}
      [("a", "Owner"), ("b", "Owner"), ("c", "Owner2"), ("a", "Keeper")]).nameOf? "c" =
        some "Owner22" := by decide +kernel
  refine ⟨by decide +kernel, hname, fun more => ?_⟩
  exact (registerEach_bijection _).2.2.2.2 "c" "Owner22" more hname

end NameRegistry

end ApiModels
