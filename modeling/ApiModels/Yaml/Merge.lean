/-
ApiModels.Yaml.Merge — mappings with the pairs of others merged in.

The value of a merge key is a mapping or a sequence of mappings. Their
pairs, in which other mappings have been merged in turn, come before the
mapping's own; of a sequence the last mapping comes first. The merge keys
themselves go. A key that is an equals sign is from then on a text.

A mapping may be merged into itself, since its merge key goes before its
pairs are looked at: they are there twice then.

Main definition: `Nodes.flatten`, the nodes after that has been done with
one of them.
-/
import ApiModels.Yaml.Node

namespace ApiModels.Yaml

/-- Nodes by their numbers. -/
abbrev Nodes := Array Node

namespace Nodes

/-- The node with a number. -/
def nodeAt (nodes : Nodes) (number : Nat) : Node := nodes.getD number .empty

/-- The pairs of a node that is a mapping. -/
def pairs? (nodes : Nodes) (number : Nat) : Option (List (Nat × Nat)) :=
  match (nodes.nodeAt number).content with
  | .mapping pairs => some pairs
  | _ => none

/-- The pairs of a node; none of one that is no mapping. -/
def pairs (nodes : Nodes) (number : Nat) : List (Nat × Nat) := (nodes.pairs? number).getD []

/-- A mapping with other pairs. -/
def setPairs (nodes : Nodes) (number : Nat) (pairs : List (Nat × Nat)) : Nodes :=
  nodes.modify number fun node => { node with content := .mapping pairs }

/-- A node of another type. -/
def setTag (nodes : Nodes) (number : Nat) (tag : Tag) : Nodes :=
  nodes.modify number fun node => { node with tag }

/-- A key stands for something else than itself. -/
def isSpecialKey (nodes : Nodes) (number : Nat) : Bool :=
  [.merge, .value].contains (nodes.nodeAt number).tag

/-- A mapping has a key that stands for something else than itself. -/
def hasSpecialKey (nodes : Nodes) (number : Nat) : Bool :=
  (nodes.pairs number).any fun p => nodes.isSpecialKey p.1

mutual

/-- Merges into a mapping, from its pair at `place` on; `merged` are the pairs to come first. -/
def mergeFrom : Nat → Nodes → (number place : Nat) → (merged : List (Nat × Nat)) → Option Nodes
  | 0, _, _, _, _ => none
  | n + 1, nodes, number, place, merged =>
    let own := nodes.pairs number
    match own[place]? with
    | none => some (if merged.isEmpty then nodes else nodes.setPairs number (merged ++ own))
    | some (key, value) =>
      match (nodes.nodeAt key).tag with
      | .merge => do
        let (found, nodes) ← mergedPairs n (nodes.setPairs number (own.eraseIdx place)) value
        mergeFrom n nodes number place (merged ++ found)
      | .value => mergeFrom n (nodes.setTag key .str) number (place + 1) merged
      | _ => mergeFrom n nodes number (place + 1) merged

/-- The pairs that the value of a merge key stands for. -/
def mergedPairs : Nat → Nodes → (value : Nat) → Option (List (Nat × Nat) × Nodes)
  | 0, _, _ => none
  | n + 1, nodes, value =>
    match (nodes.nodeAt value).content with
    | .mapping _ => mappingPairs n nodes value
    | .sequence items => sequencePairs n nodes items
    | .scalar _ => none

/-- The pairs of mappings, those of the last one first. -/
def sequencePairs : Nat → Nodes → (items : List Nat) → Option (List (Nat × Nat) × Nodes)
  | 0, _, _ => none
  | _, nodes, [] => some ([], nodes)
  | n + 1, nodes, item :: rest => do
    let (first, nodes) ← mappingPairs n nodes item
    let (others, nodes) ← sequencePairs n nodes rest
    some (others ++ first, nodes)

/-- The pairs of a mapping, others merged in. -/
def mappingPairs : Nat → Nodes → (number : Nat) → Option (List (Nat × Nat) × Nodes)
  | 0, _, _ => none
  | n + 1, nodes, number => do
    if (nodes.pairs? number).isNone then none
    else
      let nodes ← if nodes.hasSpecialKey number then mergeFrom n nodes number 0 [] else some nodes
      some (nodes.pairs number, nodes)

end

/-- No merge goes deeper: every call goes on to a further pair, or a merge key has gone. -/
def mergeDepth (nodes : Nodes) : Nat :=
  let all := nodes.foldl (fun n node => match node.content with
    | .mapping pairs => n + pairs.length + 4
    | .sequence items => n + items.length + 4
    | .scalar _ => n) 4
  all * all

/-- The nodes after a mapping has got the pairs of those merged into it; its pairs. -/
def flatten (nodes : Nodes) (number : Nat) : Option (List (Nat × Nat) × Nodes) :=
  if nodes.hasSpecialKey number then mappingPairs nodes.mergeDepth nodes number
  else (nodes.pairs? number).map fun pairs => (pairs, nodes)

end Nodes

end ApiModels.Yaml
