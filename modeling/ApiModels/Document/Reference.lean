/-
ApiModels.Document.Reference — references inside a document.

A node may be an object with the member `$ref`, whose text is a pointer
to another object of the document: `#/` and keys separated by slashes,
where `~1` stands for a slash and `~0` for a tilde inside a key.
`Members.chase` goes from reference to reference until it stands at an
object without one. A chain of more than 32 references leads nowhere, and
so does one that comes to a reference again.

A chain that comes to a reference again would go on for ever, so what it has
seen makes no difference to where it leads: `Members.follow` only counts, and
leads to the same (`resolve_eq`).

The name of a chain is the last part of its first pointer; it serves as
the name of the shape that the chain leads to.
-/
import ApiModels.Value.Shape

namespace ApiModels

/-- What a node leads to, and the name of the chain that led there. -/
structure Resolution where
  node : Option Members
  name : String
  deriving Repr

namespace Pointer

/-- The member that holds a reference. -/
def member : String := "$ref"

/-- The most references in a chain. -/
def greatestHops : Nat := 32

/-- Every `meant` is written as a tilde and a code. -/
def escape (meant code : Char) (cs : List Char) : List Char :=
  cs.flatMap fun c => if c = meant then ['~', code] else [c]

/-- Every tilde with the code behind it is read as `meant`, from left to right. -/
def unescape (code meant : Char) : List Char → List Char
  | [] => []
  | [c] => [c]
  | c :: d :: cs =>
    if c = '~' ∧ d = code then meant :: unescape code meant cs
    else c :: unescape code meant (d :: cs)

/-- A key as it is written inside a pointer. -/
def encode (key : List Char) : List Char :=
  escape '/' '1' (escape '~' '0' key)

/-- The key that is written inside a pointer. -/
def decode (part : List Char) : List Char :=
  unescape '0' '~' (unescape '1' '/' part)

/-- The keys that are written with slashes between them. -/
def parts (cs : List Char) : List String :=
  (Text.splitOn '/' cs).map fun part => String.ofList (decode part)

/-- The keys of a pointer, from the root. -/
def keys? (pointer : String) : Option (List String) :=
  match pointer.toList with
  | '#' :: '/' :: cs => some (parts cs)
  | _ => none

/-- The last part of a pointer, as it is written. -/
def lastPart (pointer : String) : String :=
  String.ofList (Text.afterLast '/' pointer.toList)

end Pointer

namespace Value

/-- The value that keys lead to, through nested objects. -/
def descend (v : Value) : List String → Option Value
  | [] => some v
  | key :: rest =>
    match v.members? with
    | some ms =>
      match Members.get? ms key with
      | some inner => descend inner rest
      | none => none
    | none => none

end Value

namespace Members

/-- The object that a pointer designates. -/
def target? (root : Members) (pointer : String) : Option Members :=
  match Pointer.keys? pointer with
  | none => none
  | some keys => (Value.descend (.object root) keys).bind Value.members?

/--
Where a chain of at most `hops` more references leads from `node`, to which it has come along the
references that were seen.

`name` is the chain's name as far as it is known. A reference that is not a text is of the wrong
shape, save that a chain with a name and no hops left only tells it.
-/
def chase (root : Members) : (hops : Nat) → (seen : List String) → (name : String) →
    (node : Members) → Result Resolution
  | hops, seen, name, node =>
    match node.get? Pointer.member with
    | none => .ok ⟨some node, name⟩
    | some (.text pointer) =>
      let name := if name.isEmpty then Pointer.lastPart pointer else name
      if pointer ∈ seen then .ok ⟨none, name⟩
      else
        match hops with
        | 0 => .ok ⟨none, name⟩
        | hops + 1 =>
          match target? root pointer with
          | none => .ok ⟨none, name⟩
          | some next => chase root hops (pointer :: seen) name next
    | some reference => do
      let _ ← reference.key
      if hops = 0 && !name.isEmpty then
        let _ ← reference.told
        .ok ⟨none, name⟩
      else .error .wrongShape

/-- What a node leads to; only objects lead anywhere. -/
def resolve (root : Members) (node : Value) : Result Resolution :=
  match node.members? with
  | some ms => chase root Pointer.greatestHops [] "" ms
  | none => .ok ⟨none, ""⟩

/-! ## Chains that only count

What a chain has seen are references that lead one to the other, and the last one of them to where
the chain stands (`hseen` below). If it comes to one of them again, it never leaves them.
-/

/-- Where a chain of at most `hops` references leads, whatever it has seen. -/
def follow (root : Members) : (hops : Nat) → (name : String) → (node : Members) → Result Resolution
  | hops, name, node =>
    match node.get? Pointer.member with
    | none => .ok ⟨some node, name⟩
    | some (.text pointer) =>
      let name := if name.isEmpty then Pointer.lastPart pointer else name
      match hops with
      | 0 => .ok ⟨none, name⟩
      | hops + 1 =>
        match target? root pointer with
        | none => .ok ⟨none, name⟩
        | some next => follow root hops name next
    | some reference => do
      let _ ← reference.key
      if hops = 0 && !name.isEmpty then
        let _ ← reference.told
        .ok ⟨none, name⟩
      else .error .wrongShape

/-- Of references without a name none gives one to a chain. -/
theorem name_of_seen {seen : List String} {name : String}
    (hname : name = "" → ∀ p ∈ seen, Pointer.lastPart p = "") {pointer : String}
    (hpointer : pointer ∈ seen) :
    (if name.isEmpty then Pointer.lastPart pointer else name) = name := by
  split
  · rename_i hempty
    have hnone : name = "" := String.isEmpty_iff.1 hempty
    rw [hname hnone pointer hpointer, hnone]
  · rfl

/-- References that lead one to the other lead to no end. -/
theorem follow_of_seen {root : Members} {seen : List String}
    (hseen : ∀ p ∈ seen, ∃ next, target? root p = some next ∧
      ∃ q ∈ seen, next.get? Pointer.member = some (.text q))
    {name : String} (hname : name = "" → ∀ p ∈ seen, Pointer.lastPart p = "") {hops : Nat} :
    ∀ {node : Members} {pointer : String}, pointer ∈ seen →
      node.get? Pointer.member = some (.text pointer) →
      follow root hops name node = .ok ⟨none, name⟩ := by
  induction hops with
  | zero =>
    intro node pointer hpointer href
    unfold follow
    simp only [href, name_of_seen hname hpointer]
  | succ hops ih =>
    intro node pointer hpointer href
    obtain ⟨next, htarget, q, hq, hnext⟩ := hseen pointer hpointer
    unfold follow
    simp only [href, htarget, name_of_seen hname hpointer]
    exact ih hq hnext

/-- What a chain has seen makes no difference to where it leads. -/
theorem chase_eq_follow {root : Members} {hops : Nat} :
    ∀ {seen : List String} {name : String} {node : Members},
      (∀ p ∈ seen, ∃ next, target? root p = some next ∧
        (next = node ∨ ∃ q ∈ seen, next.get? Pointer.member = some (.text q))) →
      (name = "" → ∀ p ∈ seen, Pointer.lastPart p = "") →
      chase root hops seen name node = follow root hops name node := by
  induction hops with
  | zero =>
    intro seen name node _ _
    unfold chase follow
    split <;> simp
  | succ hops ih =>
    intro seen name node hseen hname
    by_cases htext : ∃ pointer, node.get? Pointer.member = some (.text pointer)
    · obtain ⟨pointer, href⟩ := htext
      by_cases hold : pointer ∈ seen
      · have hclosed : ∀ p ∈ seen, ∃ next, target? root p = some next ∧
            ∃ q ∈ seen, next.get? Pointer.member = some (.text q) := by
          intro p hp
          obtain ⟨next, htarget, rfl | hnext⟩ := hseen p hp
          · exact ⟨next, htarget, pointer, hold, href⟩
          · exact ⟨next, htarget, hnext⟩
        rw [follow_of_seen hclosed hname hold href]
        unfold chase
        simp only [href, if_pos hold, name_of_seen hname hold]
      · unfold chase follow
        simp only [href, if_neg hold]
        cases htarget : target? root pointer with
        | none => rfl
        | some next =>
          refine ih (List.forall_mem_cons.2 ⟨⟨next, htarget, .inl rfl⟩, fun p hp => ?_⟩)
            fun hempty => List.forall_mem_cons.2 ?_
          · obtain ⟨after, hafter, rfl | ⟨q, hq, hnext⟩⟩ := hseen p hp
            · exact ⟨after, hafter, .inr ⟨pointer, List.mem_cons_self, href⟩⟩
            · exact ⟨after, hafter, .inr ⟨q, List.mem_cons_of_mem _ hq, hnext⟩⟩
          · split at hempty
            · rename_i hnone
              exact ⟨hempty, hname (String.isEmpty_iff.1 hnone)⟩
            · rename_i hnamed
              exact absurd (String.isEmpty_iff.2 hempty) hnamed
    · unfold chase follow
      split
      · rfl
      · rename_i pointer href
        exact absurd ⟨pointer, href⟩ htext
      · rfl

theorem resolve_eq (root : Members) (node : Value) :
    resolve root node = match node.members? with
      | some ms => follow root Pointer.greatestHops "" ms
      | none => .ok ⟨none, ""⟩ := by
  unfold resolve
  split
  · exact chase_eq_follow nofun fun _ => nofun
  · rfl

end Members

end ApiModels
