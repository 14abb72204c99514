/-
ApiModels.Proofs.Document.Chain — chains of references as a whole.

From an object there is one chain of references. It ends at an object without
a reference (`EndsAt`), breaks at a reference that designates no object
(`Breaks`), or comes to an object again (`Cycles`). There is no fourth: a
document holds finitely many objects, so a chain that always goes on comes
to one of them again (`cycles_of_endless`). And no two of these happen to one
chain, since a chain that ends goes nowhere but to its end (`EndsAt.rest`).

`Document.resolve` gives the end of a chain that is no longer than chains may
be, and of no other (`resolve_chain`).
-/
import Mathlib.Data.Set.Finite.Lattice
import Mathlib.Order.Preorder.Finite
import ApiModels.Proofs.Document.Pointer
import ApiModels.Proofs.Document.Regular

namespace ApiModels

/-! ## The objects in a value -/

namespace Value

variable {ms : Members} {m : Scalar × Value}

theorem sizeOf_lt_of_mem_members? (hm : m ∈ ms) :
    ∀ {v : Value}, v.members? = some ms → sizeOf m.2 < sizeOf v
  | .object _, h => by
    cases h
    obtain ⟨key, value⟩ := m
    have hmember := List.sizeOf_lt_of_mem hm
    simp only [Prod.mk.sizeOf_spec, object.sizeOf_spec] at hmember ⊢
    omega
  | .knot number v, h => by
    have hlt : sizeOf m.2 < sizeOf v := sizeOf_lt_of_mem_members? hm h
    simp only [knot.sizeOf_spec]
    omega

/-- There are finitely many objects that keys lead to. -/
theorem finite_leadsTo (v : Value) : {last | ∃ keys, v.LeadsTo keys last}.Finite := by
  induction hsize : sizeOf v using Nat.strong_induction_on generalizing v with
  | _ size ih =>
    cases hv : v.members? with
    | none =>
      refine Set.finite_empty.subset ?_
      rintro last ⟨keys, h⟩
      cases h with
      | here hms => cases hv.symm.trans hms
      | on hms => cases hv.symm.trans hms
    | some ms =>
      have hmembers : (⋃ m ∈ {m | m ∈ ms}, {last | ∃ keys, m.2.LeadsTo keys last}).Finite :=
        (List.finite_toSet ms).biUnion fun m hm =>
          ih _ (hsize ▸ sizeOf_lt_of_mem_members? hm hv) m.2 rfl
      refine (hmembers.insert ms).subset ?_
      rintro last ⟨keys, h⟩
      cases h with
      | here hms =>
        cases hv.symm.trans hms
        exact Set.mem_insert _ _
      | on hms hkey h =>
        cases hv.symm.trans hms
        obtain ⟨m, hfind, rfl⟩ := Option.map_eq_some_iff.1 hkey
        exact .inr (Set.mem_biUnion (List.mem_of_find?_eq_some hfind) ⟨_, h⟩)

end Value

namespace Document

/-! ## How a chain goes -/

/-- The chain of an object ends at an object without a reference, after so many. -/
def EndsAt (d : Document) (n : Nat) (ms last : Members) : Prop :=
  d.Hops n ms last ∧ last.get? Pointer.member = none

/-- The chain of an object comes to a reference that designates no object. -/
def Breaks (d : Document) (ms : Members) : Prop :=
  ∃ n last pointer, d.Hops n ms last ∧ last.get? Pointer.member = some (.text pointer) ∧
    d.root.target? pointer = none

/-- The chain of an object comes to an object from which it comes to it again. -/
def Cycles (d : Document) (ms : Members) : Prop :=
  ∃ n more last, d.Hops n ms last ∧ d.Hops (more + 1) last last

variable {d : Document} {ms mid last last' : Members} {m n : Nat}

theorem Hops.leads (h : d.Hops n ms last) : d.Leads ms last := by
  induction h with
  | here => exact .here
  | on href htarget _ ih => exact .on href htarget ih

theorem Hops.unique (h : d.Hops n ms last) (h' : d.Hops n ms last') : last = last' := by
  induction h with
  | here =>
    cases h'
    rfl
  | on href htarget _ ih =>
    cases h' with
    | on href' htarget' h' =>
      cases href.symm.trans href'
      cases htarget.symm.trans htarget'
      exact ih h'

theorem Hops.split (h : d.Hops (m + n) ms last) : ∃ mid, d.Hops m ms mid ∧ d.Hops n mid last := by
  induction m generalizing ms with
  | zero => exact ⟨ms, .here, Nat.zero_add n ▸ h⟩
  | succ m ih =>
    rw [Nat.succ_add] at h
    cases h with
    | on href htarget h =>
      obtain ⟨mid, hfirst, hrest⟩ := ih h
      exact ⟨mid, .on href htarget hfirst, hrest⟩

theorem Hops.snoc {pointer : String} (h : d.Hops n ms mid)
    (href : mid.get? Pointer.member = some (.text pointer))
    (htarget : d.root.target? pointer = some last) : d.Hops (n + 1) ms last := by
  induction h with
  | here => exact .on href htarget .here
  | on hfirst hnext _ ih => exact .on hfirst hnext (ih href)

/-- What a chain comes to by a reference is one of the objects that keys lead to. -/
theorem Hops.exists_leadsTo (h : d.Hops (n + 1) ms last) :
    ∃ keys, (Value.object d.root).LeadsTo keys last := by
  induction n generalizing ms with
  | zero =>
    cases h with
    | on href htarget h =>
      cases h
      unfold Members.target? at htarget
      split at htarget
      · cases htarget
      · exact ⟨_, Value.leadsTo_iff.2 htarget⟩
  | succ n ih =>
    cases h with
    | on _ _ h => exact ih h

/-! ## Ends, breaks and cycles -/

/-- Where a chain comes that ends, it goes on to its end. -/
theorem EndsAt.rest (h : d.EndsAt n ms last) (hmid : d.Hops m ms mid) :
    m ≤ n ∧ d.EndsAt (n - m) mid last := by
  obtain ⟨hhops, hend⟩ := h
  induction hmid generalizing n with
  | here => exact ⟨Nat.zero_le n, hhops, hend⟩
  | on href htarget _ ih =>
    cases hhops with
    | here => cases hend.symm.trans href
    | on href' htarget' hhops =>
      cases href.symm.trans href'
      cases htarget.symm.trans htarget'
      obtain ⟨hle, hrest⟩ := ih hhops
      exact ⟨Nat.succ_le_succ hle, by rwa [Nat.add_sub_add_right]⟩

theorem EndsAt.unique (h : d.EndsAt n ms last) (h' : d.EndsAt m ms last') :
    n = m ∧ last = last' := by
  obtain rfl : n = m := Nat.le_antisymm (h'.rest h.1).1 (h.rest h'.1).1
  exact ⟨rfl, h.1.unique h'.1⟩

theorem EndsAt.not_breaks (h : d.EndsAt n ms last) : ¬ d.Breaks ms := by
  rintro ⟨m, mid, pointer, hmid, href, htarget⟩
  obtain ⟨-, hrest, hend⟩ := h.rest hmid
  generalize n - m = rest at hrest
  cases hrest with
  | here => cases hend.symm.trans href
  | on href' htarget' =>
    cases href.symm.trans href'
    cases htarget.symm.trans htarget'

theorem EndsAt.not_cycles (h : d.EndsAt n ms last) : ¬ d.Cycles ms := by
  rintro ⟨m, more, mid, hmid, hround⟩
  obtain ⟨-, hrest⟩ := h.rest hmid
  obtain ⟨hle, hagain⟩ := hrest.rest hround
  have hlength := (hrest.unique hagain).1
  omega

/-- A chain that always goes on comes to an object again. -/
theorem cycles_of_endless (h : ∀ n, ∃ last, d.Hops n ms last) : d.Cycles ms := by
  choose object hobject using h
  obtain ⟨m, n, hlt, hsame⟩ := Set.Finite.exists_lt_map_eq_of_forall_mem
    (f := fun n => object (n + 1)) (fun n => (hobject (n + 1)).exists_leadsTo)
    (Value.finite_leadsTo (.object d.root))
  obtain ⟨more, rfl⟩ := Nat.exists_eq_add_of_lt hlt
  have hlater : d.Hops (m + 1 + (more + 1)) ms (object (m + 1)) := by
    rw [hsame, show m + 1 + (more + 1) = m + more + 1 + 1 by omega]
    exact hobject _
  obtain ⟨mid, hfirst, hround⟩ := hlater.split
  rw [← (hobject (m + 1)).unique hfirst] at hround
  exact ⟨m + 1, more, _, hobject (m + 1), hround⟩

variable {node : Value}

/-- A chain whose references are texts ends, breaks or comes to an object again. -/
theorem Followable.ends (hnode : node.members? = some ms) (htexts : d.Followable node) :
    (∃ n last, d.EndsAt n ms last) ∨ d.Breaks ms ∨ d.Cycles ms := by
  by_cases hbreaks : d.Breaks ms
  · exact .inr (.inl hbreaks)
  by_cases hends : ∃ n last, d.EndsAt n ms last
  · exact .inl hends
  refine .inr (.inr (cycles_of_endless fun n => ?_))
  induction n with
  | zero => exact ⟨ms, .here⟩
  | succ n ih =>
    obtain ⟨last, hlast⟩ := ih
    cases href : last.get? Pointer.member with
    | none => exact absurd ⟨n, last, hlast, href⟩ hends
    | some reference =>
      obtain ⟨pointer, rfl⟩ := htexts ms last hnode hlast.leads reference href
      cases htarget : d.root.target? pointer with
      | none => exact absurd ⟨n, last, pointer, hlast, href, htarget⟩ hbreaks
      | some next => exact ⟨next, hlast.snoc href htarget⟩

/-! ## What is made of a chain -/

/--
A node whose references are texts leads to the end of its chain, if that is no further than chains
may be long, and to no object if the chain breaks, comes to an object again or is longer. What it
leads to has no reference, and leads to itself.
-/
theorem resolve_chain (hnode : node.members? = some ms) (htexts : d.Followable node) :
    ∃ r, d.resolve node = .ok r ∧
      (∀ last, r.node = some last ↔ ∃ n ≤ Pointer.greatestHops, d.EndsAt n ms last) ∧
      (r.node = none ↔
        d.Breaks ms ∨ d.Cycles ms ∨ ∃ n > Pointer.greatestHops, ∃ last, d.EndsAt n ms last) ∧
      ∀ last, r.node = some last →
        last.get? Pointer.member = none ∧ d.resolve (.object last) = .ok ⟨some last, ""⟩ := by
  obtain ⟨r, hr⟩ := htexts.resolve
  have hsome : ∀ last, r.node = some last ↔ ∃ n ≤ Pointer.greatestHops, d.EndsAt n ms last := by
    intro last
    refine Iff.trans ?_ (exists_resolve_iff hnode)
    rw [hr]
    constructor
    · intro hlast
      exact ⟨r.name, by rw [← hlast]⟩
    · rintro ⟨name, hname⟩
      rw [Except.ok.inj hname]
  refine ⟨r, hr, hsome, ⟨fun hnone => ?_, fun hcause => ?_⟩, fun last hlast => ?_⟩
  · rcases htexts.ends hnode with ⟨n, last, hend⟩ | hbreaks | hcycles
    · have hfar : ¬ n ≤ Pointer.greatestHops := fun hn => by
        cases hnone.symm.trans ((hsome last).2 ⟨n, hn, hend⟩)
      exact .inr (.inr ⟨n, Nat.lt_of_not_le hfar, last, hend⟩)
    · exact .inl hbreaks
    · exact .inr (.inl hcycles)
  · cases hlast : r.node with
    | none => rfl
    | some last =>
      obtain ⟨n, hn, hend⟩ := (hsome last).1 hlast
      rcases hcause with hbreaks | hcycles | ⟨m, hm, last', hend'⟩
      · exact absurd hbreaks hend.not_breaks
      · exact absurd hcycles hend.not_cycles
      · exact absurd ((hend'.unique hend).1 ▸ hn) (Nat.not_le_of_lt hm)
  · have hend : last.get? Pointer.member = none := by
      obtain ⟨n, -, -, hend⟩ := (hsome last).1 hlast
      exact hend
    exact ⟨hend, resolve_end rfl hend⟩

/-! ### A way into a circle -/

namespace Sample

def pointing (pointer : String) : Members := [(.text Pointer.member, .text pointer)]

/-- Two schemas that stand for one another, and a third that stands for one of them. -/
def circling : Document :=
  ⟨[(.text "A", .object (pointing "#/B")), (.text "B", .object (pointing "#/A")),
    (.text "Alias", .object (pointing "#/A"))], []⟩

/-- What the third schema leads to. -/
def among : List Members := ["#/Alias", "#/A", "#/B"].map pointing

theorem followable_alias : circling.Followable (.object (pointing "#/Alias")) := by
  have hamong : ∀ ms last, circling.Leads ms last → ms ∈ among → last ∈ among := by
    intro ms last h
    induction h with
    | here => exact id
    | on href htarget _ ih =>
      intro hms
      refine ih ?_
      simp only [among, List.map_cons, List.map_nil, List.mem_cons, List.not_mem_nil,
        or_false] at hms
      rcases hms with rfl | rfl | rfl
      all_goals
        cases href
        cases htarget
        simp [among, pointing]
  intro ms last hms hleads reference href
  cases hms
  obtain ⟨pointer, -, rfl⟩ := List.mem_map.1 (hamong _ last hleads (by simp [among]))
  cases href
  exact ⟨pointer, rfl⟩

end Sample

theorem resolve_chain_sample :
    (Value.object (Sample.pointing "#/Alias")).members? = some (Sample.pointing "#/Alias") ∧
      Sample.circling.Followable (.object (Sample.pointing "#/Alias")) ∧
      Sample.circling.Cycles (Sample.pointing "#/Alias") ∧
      ∃ r, Sample.circling.resolve (.object (Sample.pointing "#/Alias")) = .ok r ∧
        r.node = none := by
  have hcycles : Sample.circling.Cycles (Sample.pointing "#/Alias") :=
    ⟨1, 1, Sample.pointing "#/A", .on rfl rfl .here, .on rfl rfl (.on rfl rfl .here)⟩
  obtain ⟨r, hr, -, hnone, -⟩ := resolve_chain (rfl : (Value.object _).members? = _)
    Sample.followable_alias
  exact ⟨rfl, Sample.followable_alias, hcycles, r, hr, hnone.2 (.inr (.inl hcycles))⟩

end Document

end ApiModels
