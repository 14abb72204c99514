/-
ApiModels.Proofs.Document.Reference — where references lead.

`Document.Hops` is a chain of references from one object to another, and
`Document.Resolves` says of a node that a chain, no longer than chains may
be, leads from it to an object without a reference. These are the nodes that
`Document.resolve` gives an object for (`resolves_iff`).

The end of a chain is no reference, so it leads to itself (`resolve_end`).
-/
import ApiModels.Proofs.Extract.Walk

namespace ApiModels

namespace Document

/-! ## Chains -/

/-- One object leads to another along so many references. -/
inductive Hops (d : Document) : Nat → Members → Members → Prop where
  | here {ms} : Hops d 0 ms ms
  | on {n ms next last pointer} (href : ms.get? Pointer.member = some (.text pointer))
      (htarget : d.root.target? pointer = some next) (h : Hops d n next last) :
      Hops d (n + 1) ms last

/-- A node leads, along no more references than a chain may have, to an object without one. -/
def Resolves (d : Document) (node : Value) : Prop :=
  ∃ ms schema, ∃ n ≤ Pointer.greatestHops, node.members? = some ms ∧ d.Hops n ms schema ∧
    schema.get? Pointer.member = none

variable {d : Document}

/-- A chain that ends at an object stands there already, or goes on to where a reference points. -/
theorem follow_eq_some {hops : Nat} {name name' : String} {ms schema : Members}
    (h : d.root.follow hops name ms = .ok ⟨some schema, name'⟩) :
    (ms.get? Pointer.member = none ∧ schema = ms) ∨
      ∃ pointer next left name, ms.get? Pointer.member = some (.text pointer) ∧
        d.root.target? pointer = some next ∧ hops = left + 1 ∧
        d.root.follow left name next = .ok ⟨some schema, name'⟩ := by
  unfold Members.follow at h
  split at h
  · rename_i hnone
    cases h
    exact .inl ⟨hnone, rfl⟩
  · rename_i pointer href
    dsimp only at h
    split at h
    · cases h
    · split at h
      · cases h
      · rename_i next htarget
        exact .inr ⟨pointer, next, _, _, href, htarget, rfl, h⟩
  · obtain ⟨_, -, h⟩ := Result.bind_eq_ok.1 h
    split at h
    · obtain ⟨_, -, h⟩ := Result.bind_eq_ok.1 h
      cases h
    · cases h

/-- A chain that is followed to an object leads there, along no more references than are left. -/
theorem hops_of_follow {hops : Nat} : ∀ {name name' : String} {ms schema : Members},
    d.root.follow hops name ms = .ok ⟨some schema, name'⟩ →
      ∃ n ≤ hops, d.Hops n ms schema ∧ schema.get? Pointer.member = none := by
  induction hops with
  | zero =>
    intro name name' ms schema h
    rcases follow_eq_some h with ⟨hnone, rfl⟩ | ⟨_, _, _, _, -, -, hleft, -⟩
    · exact ⟨0, Nat.le_refl 0, .here, hnone⟩
    · cases hleft
  | succ hops ih =>
    intro name name' ms schema h
    rcases follow_eq_some h with ⟨hnone, rfl⟩ | ⟨_, _, _, _, href, htarget, hleft, hnext⟩
    · exact ⟨0, Nat.zero_le _, .here, hnone⟩
    · cases hleft
      obtain ⟨n, hn, hhops, hend⟩ := ih hnext
      exact ⟨n + 1, Nat.succ_le_succ hn, .on href htarget hhops, hend⟩

/-- A chain is followed to its end, if there are no more references than may be. -/
theorem Hops.follow {n : Nat} {ms schema : Members} (h : d.Hops n ms schema)
    (hend : schema.get? Pointer.member = none) : ∀ {hops : Nat}, n ≤ hops → ∀ name : String,
      ∃ name', d.root.follow hops name ms = .ok ⟨some schema, name'⟩ := by
  induction h with
  | here =>
    intro hops _ name
    unfold Members.follow
    rw [hend]
    exact ⟨name, rfl⟩
  | on href htarget _ ih =>
    intro hops hn name
    obtain ⟨hops, rfl⟩ := Nat.exists_eq_succ_of_ne_zero (Nat.ne_zero_of_lt hn)
    unfold Members.follow
    simp only [href, htarget]
    exact ih hend (Nat.le_of_succ_le_succ hn) _

/-- An object leads to what stands at the end of its chain, if the chain is not too long. -/
theorem exists_resolve_iff {node : Value} {ms last : Members} (hms : node.members? = some ms) :
    (∃ name, d.resolve node = .ok ⟨some last, name⟩) ↔
      ∃ n ≤ Pointer.greatestHops, d.Hops n ms last ∧ last.get? Pointer.member = none := by
  rw [resolve, Members.resolve_eq, hms]
  constructor
  · rintro ⟨name, h⟩
    exact hops_of_follow h
  · rintro ⟨n, hn, hhops, hend⟩
    exact hhops.follow hend hn ""

theorem resolves_iff {node : Value} :
    d.Resolves node ↔ ∃ schema name, d.resolve node = .ok ⟨some schema, name⟩ := by
  constructor
  · rintro ⟨ms, schema, n, hn, hms, hhops, hend⟩
    exact ⟨schema, (exists_resolve_iff hms).2 ⟨n, hn, hhops, hend⟩⟩
  · rintro ⟨schema, name, h⟩
    cases hms : node.members? with
    | none =>
      rw [resolve, Members.resolve, hms] at h
      cases h
    | some ms =>
      obtain ⟨n, hn, hhops, hend⟩ := (exists_resolve_iff hms).1 ⟨name, h⟩
      exact ⟨ms, schema, n, hn, hms, hhops, hend⟩

theorem not_resolves {node : Value} {name : String} (h : d.resolve node = .ok ⟨none, name⟩) :
    ¬ d.Resolves node := by
  rw [resolves_iff, h]
  rintro ⟨_, _, hsome⟩
  cases hsome

/-! ## Their ends -/

/-- What a node leads to is no reference itself. -/
theorem end_of_resolve {node : Value} {schema : Members} {name : String}
    (h : d.resolve node = .ok ⟨some schema, name⟩) : schema.get? Pointer.member = none := by
  rw [resolve, Members.resolve_eq] at h
  split at h
  · obtain ⟨_, -, -, hend⟩ := hops_of_follow h
    exact hend
  · cases h

/-- An object without a reference leads to itself. -/
theorem resolve_end {node : Value} {schema : Members} (hnode : node.members? = some schema)
    (hend : schema.get? Pointer.member = none) : d.resolve node = .ok ⟨some schema, ""⟩ := by
  rw [resolve, Members.resolve_eq, hnode]
  unfold Members.follow
  simp only [hend]

end Document

end ApiModels
