/-
ApiModels.Yaml.Document — YAML documents as values.

A mapping becomes an object or a set. Its keys must be scalars; of equal
keys the last value counts, in the place of the first. A sequence becomes a
list, or a list of pairs if its type is one of pairs: then every item is a
mapping of one pair.

A text may have several problems. Those that show in its tokens count
first, then those in the grouping of the tokens, then those in its nodes.
Nodes are read in the order in which they are reached: a collection waits
until those before it have been read, and a scalar is read at once.

A node that is part of itself has a value that is unrolled, as deep as
anybody looks (`Reader.turns`).

A text may come in pieces. Then a character in a later piece that no YAML
text may hold counts after the problems that show in the tokens before.

Main definitions: `parse`, the value of a text or its first problem;
`parsePieces`, the same of a text that comes in pieces; `parser`, both.
-/
import ApiModels.Value.Order
import ApiModels.Yaml.Literal
import ApiModels.Yaml.Merge

namespace ApiModels.Yaml

/-- What has been read of a node; its parts are told by their numbers. -/
inductive Part where
  | scalar (s : Scalar Letters)
  | list (items : List Nat)
  | object (members : List (Scalar Letters × Nat))
  | set (keys : List (Scalar Letters))
  | pairs (pairs : List (Nat × Nat))

/-- A document that is being read. -/
structure Reader where
  nodes : Nodes
  /-- What has been read, by the numbers of the nodes. -/
  parts : Array (Option Part)
  /-- Collections whose parts are to be read, the last one first. -/
  waiting : List Nat := []

namespace Reader

/-- Keeps what has been read of a node. -/
def keep (r : Reader) (number : Nat) (part : Part) : Reader :=
  { r with parts := r.parts.setIfInBounds number (some part) }

/-- What has been read of a node. -/
def part? (r : Reader) (number : Nat) : Option Part := (r.parts[number]?).join

/-! ## Scalars -/

/-- The text of a node; a mapping has that of its value for an equals sign. -/
def textOf? (nodes : Nodes) : Nat → Nat → Option Letters
  | 0, _ => none
  | n + 1, number =>
    match (nodes.nodeAt number).content with
    | .scalar text => some text
    | .mapping pairs =>
      (pairs.find? fun p => (nodes.nodeAt p.1).tag == .value).bind fun p => textOf? nodes n p.2
    | .sequence _ => none

/-- The scalar that a node is. A date must stand in the node's own text. -/
def scalarAt (r : Reader) (number : Nat) : Reading (Scalar Letters) := do
  let node := r.nodes.nodeAt number
  let text ← match node.tag with
    | .merge | .value | .unknown => .error .unreadable
    | _ => orUnreadable (textOf? r.nodes (r.nodes.size + 1) number)
  match node.tag, node.content with
  | .timestamp, .mapping _ => fail .wrongShape
  | tag, _ => tag.read text

/-! ## Nodes in the order in which they are reached -/

/-- Reads a node that has been reached: a scalar at once, the parts of a collection later. -/
def reach (r : Reader) (number : Nat) : Reading Reader :=
  match r.part? number with
  | some _ => .ok r
  | none =>
    if (r.nodes.nodeAt number).tag.isCollection then
      .ok { r.keep number (.list []) with waiting := number :: r.waiting }
    else (r.scalarAt number).map fun s => r.keep number (.scalar s)

/-- Reads nodes in order. -/
def reachAll : List Nat → Reader → Reading Reader
  | [], r => .ok r
  | number :: rest, r => do reachAll rest (← r.reach number)

/-- Reads the key of a pair, which must be a scalar. -/
def reachKey (r : Reader) (number : Nat) : Reading (Scalar Letters × Reader) := do
  let r ← r.reach number
  match r.part? number with
  | some (.scalar s) => .ok (s, r)
  | _ => .error .unreadable

/-- Reads the pairs of a mapping, each key before its value; they are told backwards. -/
def reachMembers : List (Nat × Nat) → List (Scalar Letters × Nat) → Reader →
    Reading (List (Scalar Letters × Nat) × Reader)
  | [], acc, r => .ok (acc.reverse, r)
  | (key, value) :: rest, acc, r => do
    let (key, r) ← r.reachKey key
    reachMembers rest ((key, value) :: acc) (← r.reach value)

/-- The pair that an item of a sequence of pairs is. -/
def pairOf? (nodes : Nodes) (number : Nat) : Option (Nat × Nat) :=
  match nodes.pairs? number with
  | some [pair] => some pair
  | _ => none

/-- Reads the items of a sequence of pairs; their pairs are told backwards. -/
def reachPairs : List Nat → List (Nat × Nat) → Reader → Reading (List (Nat × Nat) × Reader)
  | [], acc, r => .ok (acc.reverse, r)
  | item :: rest, acc, r => do
    let (key, value) ← orUnreadable (pairOf? r.nodes item)
    reachPairs rest ((key, value) :: acc) (← reachAll [key, value] r)

/-- Reads the pairs of a mapping after merging. -/
def reachMapping (r : Reader) (number : Nat) : Reading (List (Scalar Letters × Nat) × Reader) := do
  let (pairs, nodes) ← orUnreadable (r.nodes.flatten number)
  reachMembers pairs [] { r with nodes }

/-- Keys each once; whole numbers in ascending order. -/
def setOf (keys : List (Scalar Letters)) : List (Scalar Letters) :=
  let distinct := Scalar.distinct keys
  let whole? : Scalar Letters → Option Int
    | .int n => some n
    | _ => none
  match distinct.mapM whole? with
  | some ns => (sortedBy (fun m n => m < n) ns).map .int
  | none => distinct

/-- Reads the parts of a collection. -/
def expand (r : Reader) (number : Nat) : Reading Reader := do
  let node := r.nodes.nodeAt number
  match node.tag, node.content with
  | .seq, .sequence items => do .ok ((← reachAll items r).keep number (.list items))
  | .omap, .sequence items | .pairs, .sequence items => do
    let (pairs, r) ← reachPairs items [] r
    .ok (r.keep number (.pairs pairs))
  | .set, .mapping _ => do
    let (members, r) ← r.reachMapping number
    .ok (r.keep number (.set (setOf (members.map (·.1)))))
  | .map, .mapping _ => do
    let (members, r) ← r.reachMapping number
    .ok (r.keep number (.object (Members.ofPairs members)))
  | _, _ => .error .unreadable

/-- Reads the parts of collections in order. -/
def expandAll : List Nat → Reader → Reading Reader
  | [], r => .ok r
  | number :: rest, r => do expandAll rest (← r.expand number)

/-- Reads all collections that wait, and those that are reached then. -/
def finish : Nat → Reader → Reading Reader
  | 0, _ => .error .unreadable
  | n + 1, r =>
    if r.waiting.isEmpty then .ok r
    else do finish n (← expandAll r.waiting.reverse { r with waiting := [] })

/-- All of a document is read, from its root on. -/
def ofGraph (g : Graph) (root : Nat) : Reading Reader := do
  let r ← reach { nodes := g.nodes, parts := Array.replicate g.nodes.size none } root
  finish (g.nodes.size + 1) r

/-! ## Values -/

variable {τ : Type}

/-- The value of a node from the values of its parts. -/
def valueOf [Spelled τ] (values : Array (Value τ)) : Part → Value τ
  | .scalar s => .scalar (s.map Spelled.ofLetters)
  | .list items => .list (items.map (values.getD · .null))
  | .object members =>
    .object (members.map fun m => (m.1.map Spelled.ofLetters, values.getD m.2 .null))
  | .set keys => .set (keys.map (Scalar.map Spelled.ofLetters))
  | .pairs pairs =>
    .list (pairs.map fun p => .pair (values.getD p.1 .null) (values.getD p.2 .null))

/-- A value that may come again inside itself is marked by the number of its node. -/
def marked (number : Nat) : Value τ → Value τ
  | .list items => .knot number (.list items)
  | .object members => .knot number (.object members)
  | v => v

/-- Values with that of a node, which is marked if some nodes are parts of themselves. -/
def setValue [Spelled τ] (r : Reader) (isLooped : Bool) (values : Array (Value τ)) (number : Nat) :
    Array (Value τ) :=
  match r.part? number with
  | none => values
  | some part =>
    let v := valueOf values part
    values.setIfInBounds number (if isLooped then marked number v else v)

/-- A node that is part of itself is unrolled so many times. -/
def turns : Nat := 1000

/-- The value of a node, from those of its parts, which are complete before it or come again. -/
def value [Spelled τ] (r : Reader) (g : Graph) (root : Nat) : Value τ :=
  let order := g.completed.reverse
  let values := Nat.repeat (fun values => order.foldl (r.setValue g.isLooped) values)
    (if g.isLooped then turns else 1) (Array.replicate g.nodes.size .null)
  values.getD root .null

end Reader

/-- The nodes of a text, and the root of its document. -/
def graphOf (s : String) : Reading (Graph × Option Nat) := do
  Graph.ofTokens (← orUnreadable (tokensOf? s))

variable {τ : Type} [Spelled τ]

/-- The value of a YAML text with one document at most; an empty text is null. -/
def parse (s : String) : Reading (Value τ) := do
  let (graph, root) ← graphOf s
  match root with
  | none => .ok .null
  | some root => .ok ((← Reader.ofGraph graph root).value graph root)

/-! ## Texts in pieces -/

/-- The size of the first piece of a text, if there is more. -/
def firstPiece : Nat := 8192

/-- The size of any further piece, if there is more. -/
def laterPiece : Nat := 4096

/-- The number of characters in all pieces before the one with a character at some place. -/
def beforePiece (place : Nat) : Nat :=
  if place < firstPiece then 0 else place - (place - firstPiece) % laterPiece

/--
The value of a text that comes in pieces. A piece with a character that no text may hold ends it,
unless the tokens before it name what is none.
-/
def parsePieces (s : String) : Reading (Value τ) :=
  match s.toList.findIdx? (fun c => !isAllowed c) with
  | none => parse s
  | some place =>
    match graphOf (String.ofList (s.toList.take (beforePiece place))) with
    | .error problem => .error problem
    | .ok _ => .error .unreadable

/-- The parser of this library. -/
def parser : Parser τ := ⟨parse, parsePieces⟩

end ApiModels.Yaml
