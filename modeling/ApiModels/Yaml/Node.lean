/-
ApiModels.Yaml.Node — a row of tokens as a graph of nodes.

A node has a number and keeps what the text says: its type, and a text,
the numbers of its items, or the numbers of its keys and values in order.
An alias stands for the number of the node that its anchor names; an
anchor names one node, and may be used from the start of that node on. So
a node may be part of itself.

The functions take the tokens from the front. Each call uses a token or
opens a node, so the number of tokens bounds their depth. Where the next
token does not fit, it says what the problem is (`Tokens.problem`).

Main definition: `Graph.ofTokens`, the graph of the one document in a row
of tokens, with the number of its root.
-/
import ApiModels.Yaml.Tag
import ApiModels.Yaml.Token

namespace ApiModels.Yaml

/-- What a node consists of; parts are told by their numbers. -/
inductive Content where
  | scalar (text : Letters)
  | sequence (items : List Nat)
  | mapping (pairs : List (Nat × Nat))
  deriving Repr

/-- A node of a document. -/
structure Node where
  tag : Tag
  content : Content
  deriving Repr

/-- A scalar without text. -/
def Node.empty : Node := ⟨.null, .scalar []⟩

/-- The nodes of a document. -/
structure Graph where
  /-- The nodes by their numbers. -/
  nodes : Array Node := #[]
  /-- The numbers in the order in which the nodes were complete, backwards. -/
  completed : List Nat := []
  /-- A node is part of itself. -/
  isLooped : Bool := false

namespace Graph

/-- Gives a number to a node that is not complete yet. -/
def start (g : Graph) : Nat × Graph :=
  (g.nodes.size, { g with nodes := g.nodes.push .empty })

/-- Completes a node. -/
def complete (g : Graph) (number : Nat) (node : Node) : Graph :=
  { g with nodes := g.nodes.setIfInBounds number node, completed := number :: g.completed }

/-- Adds a node that is complete. -/
def add (g : Graph) (node : Node) : Nat × Graph :=
  let (number, g) := g.start
  (number, g.complete number node)

end Graph

/-! ## Tokens -/

/-- A node with an anchor. -/
structure Anchored where
  number : Nat
  /-- The node is not complete. -/
  isOpen : Bool

/-- What is left of the tokens, with the anchors, tag handles and nodes that are known. -/
structure Tokens where
  rest : List Token
  anchors : List (String × Anchored) := []
  handles : List (String × String) := []
  graph : Graph := {}

namespace Tokens

/-- The next token is one of some. -/
def at? (s : Tokens) (ts : List Token) : Bool :=
  match s.rest with
  | [] => false
  | t :: _ => ts.contains t

/-- The tokens after the next one. -/
def next (s : Tokens) : Tokens := { s with rest := s.rest.tail }

/-- What is wrong where the next token does not fit. -/
def problem (s : Tokens) : Problem :=
  match s.rest with
  | .noCharacter code :: _ => .failure (.notACharacter code)
  | .longVersion digits :: _ => .failure (.tooManyDigits (some digits))
  | _ => .unreadable

/-- Adds a node that is complete. -/
def add (s : Tokens) (node : Node) : Nat × Tokens :=
  let (number, graph) := s.graph.add node
  (number, { s with graph })

/-- Names a node by an anchor, if there is one. -/
def nameNode (s : Tokens) (anchor : Option String) (node : Anchored) : Tokens :=
  match anchor with
  | some a => { s with anchors := (a, node) :: s.anchors }
  | none => s

/-- Opens a node; its anchor, if any, names it from here on. -/
def start (s : Tokens) (anchor : Option String) : Nat × Tokens :=
  let (number, graph) := s.graph.start
  (number, ({ s with graph } : Tokens).nameNode anchor ⟨number, true⟩)

/-- Completes a node. -/
def complete (s : Tokens) (anchor : Option String) (number : Nat) (node : Node) : Tokens :=
  ({ s with graph := s.graph.complete number node } : Tokens).nameNode anchor ⟨number, false⟩

/-- The node that an alias stands for. -/
def alias? (s : Tokens) (name : String) : Option (Nat × Tokens) :=
  (s.anchors.lookup name).map fun found =>
    let graph := { s.graph with isLooped := s.graph.isLooped || found.isOpen }
    (found.number, { s.next with graph })

end Tokens

/-- What stands before a node. -/
structure Properties where
  anchor : Option String := none
  tag : Option String := none

namespace Properties

/-- The name of a tag written with a handle or without one. -/
def tagName (s : Tokens) (handle : Option String) (suffix : String) : Option String :=
  match handle with
  | none => some suffix
  | some h => (s.handles.lookup h).map (· ++ suffix)

/-- Reads an anchor and a tag, in either order. -/
def read (s : Tokens) : Option (Properties × Tokens) :=
  match s.rest with
  | .anchor a :: .tag h t :: rest => do
    some (⟨some a, some (← tagName s h t)⟩, { s with rest })
  | .tag h t :: .anchor a :: rest => do
    some (⟨some a, some (← tagName s h t)⟩, { s with rest })
  | .anchor a :: rest => some (⟨some a, none⟩, { s with rest })
  | .tag h t :: rest => do some (⟨none, some (← tagName s h t)⟩, { s with rest })
  | _ => some ({}, s)

/-- The node of a text. The lone mark of a tag has it read by its form, as if it were plain. -/
def scalar (p : Properties) (isPlain : Bool) (text : Letters) : Node :=
  let tag := match p.tag with
    | none => if isPlain then Tag.ofPlain text.toText else .str
    | some "!" => Tag.ofPlain text.toText
    | some name => Tag.ofName name
  ⟨tag, .scalar text⟩

/-- The type of a collection that is of some type without a tag. -/
def collectionTag (p : Properties) (usual : Tag) : Tag :=
  match p.tag with
  | none => usual
  | some "!" => usual
  | some name => Tag.ofName name

/-- A sequence of items, told backwards. -/
def sequence (p : Properties) (acc : List Nat) : Node :=
  ⟨p.collectionTag .seq, .sequence acc.reverse⟩

/-- A mapping of pairs, told backwards. -/
def mapping (p : Properties) (acc : List (Nat × Nat)) : Node :=
  ⟨p.collectionTag .map, .mapping acc.reverse⟩

/-- Something stands before the node. -/
def isGiven (p : Properties) : Bool := p.anchor.isSome || p.tag.isSome

/-- The anchor names a node already. -/
def isTaken (p : Properties) (s : Tokens) : Bool :=
  p.anchor.any fun a => (s.anchors.lookup a).isSome

end Properties

/-- Which collections a node may be, besides those in brackets. -/
inductive Context where
  /-- Inside brackets: none. -/
  | flow
  /-- Indented blocks. -/
  | block
  /-- Indented blocks, and entries that are not indented further than the key before them. -/
  | blockOrEntries
  deriving DecidableEq

/-! ## Composition -/

mutual

/-- The number of a node, and the tokens after it. -/
def node : Nat → Context → Tokens → Reading (Nat × Tokens)
  | 0, _, _ => .error .unreadable
  | n + 1, context, s =>
    match s.rest with
    | .alias name :: _ => orUnreadable (s.alias? name)
    | _ => do
      let (p, s) ← orUnreadable (Properties.read s)
      if p.isTaken s then .error s.problem
      else
        let (number, s) := s.start p.anchor
        let (found, s) ← content n context p s
        .ok (number, s.complete p.anchor number found)

/-- A node after its properties. -/
def content : Nat → Context → Properties → Tokens → Reading (Node × Tokens)
  | 0, _, _, _ => .error .unreadable
  | n + 1, context, p, s =>
    match s.rest, context with
    | .blockEntry :: _, .blockOrEntries => entries n p [] s
    | .scalar text isPlain :: _, _ => .ok (p.scalar isPlain text, s.next)
    | .flowSequenceStart :: _, _ => flowSequence n p [] s.next
    | .flowMappingStart :: _, _ => flowMapping n p [] s.next
    | .blockSequenceStart :: _, .block => blockSequence n p [] s.next
    | .blockSequenceStart :: _, .blockOrEntries => blockSequence n p [] s.next
    | .blockMappingStart :: _, .block => blockMapping n p [] s.next
    | .blockMappingStart :: _, .blockOrEntries => blockMapping n p [] s.next
    | _, _ => if p.isGiven then .ok (p.scalar true [], s) else .error s.problem

/-- A node, or the empty scalar before one of some tokens. -/
def optional : Nat → Context → List Token → Tokens → Reading (Nat × Tokens)
  | 0, _, _, _ => .error .unreadable
  | n + 1, context, ends, s => if s.at? ends then .ok (s.add .empty) else node n context s

/-- The entries of a block up to its end. -/
def blockSequence : Nat → Properties → List Nat → Tokens → Reading (Node × Tokens)
  | 0, _, _, _ => .error .unreadable
  | n + 1, p, acc, s =>
    match s.rest with
    | .blockEntry :: _ => do
      let (item, s) ← optional n .block [.blockEntry, .blockEnd] s.next
      blockSequence n p (item :: acc) s
    | .blockEnd :: _ => .ok (p.sequence acc, s.next)
    | _ => .error s.problem

/-- Entries that are not indented, up to whatever else follows. -/
def entries : Nat → Properties → List Nat → Tokens → Reading (Node × Tokens)
  | 0, _, _, _ => .error .unreadable
  | n + 1, p, acc, s =>
    match s.rest with
    | .blockEntry :: _ => do
      let (item, s) ← optional n .block [.blockEntry, .key, .value, .blockEnd] s.next
      entries n p (item :: acc) s
    | _ => .ok (p.sequence acc, s)

/-- A value after its mark, or the empty scalar where there is no mark. -/
def valueOf : Nat → Context → List Token → Tokens → Reading (Nat × Tokens)
  | 0, _, _, _ => .error .unreadable
  | n + 1, context, ends, s =>
    match s.rest with
    | .value :: _ => optional n context ends s.next
    | _ => .ok (s.add .empty)

/-- The pairs of a block up to its end. -/
def blockMapping : Nat → Properties → List (Nat × Nat) → Tokens → Reading (Node × Tokens)
  | 0, _, _, _ => .error .unreadable
  | n + 1, p, acc, s =>
    match s.rest with
    | .key :: _ => do
      let (k, s) ← optional n .blockOrEntries [.key, .value, .blockEnd] s.next
      let (v, s) ← valueOf n .blockOrEntries [.key, .value, .blockEnd] s
      blockMapping n p ((k, v) :: acc) s
    | .blockEnd :: _ => .ok (p.mapping acc, s.next)
    | _ => .error s.problem

/-- The items in brackets, from the first one or the comma before the next one. -/
def flowSequence : Nat → Properties → List Nat → Tokens → Reading (Node × Tokens)
  | 0, _, _, _ => .error .unreadable
  | n + 1, p, acc, s =>
    if s.at? [.flowSequenceEnd] then .ok (p.sequence acc, s.next)
    else if !acc.isEmpty && !s.at? [.flowEntry] then .error s.problem
    else
      let s := if acc.isEmpty then s else s.next
      match s.rest with
      | .flowSequenceEnd :: _ => .ok (p.sequence acc, s.next)
      | .key :: _ => do
        let (k, s) ← optional n .flow [.value, .flowEntry, .flowSequenceEnd] s.next
        let (v, s) ← valueOf n .flow [.flowEntry, .flowSequenceEnd] s
        let (pair, s) := s.add ⟨.map, .mapping [(k, v)]⟩
        flowSequence n p (pair :: acc) s
      | _ => do
        let (item, s) ← node n .flow s
        flowSequence n p (item :: acc) s

/-- The pairs in braces, from the first one or the comma before the next one. -/
def flowMapping : Nat → Properties → List (Nat × Nat) → Tokens → Reading (Node × Tokens)
  | 0, _, _, _ => .error .unreadable
  | n + 1, p, acc, s =>
    if s.at? [.flowMappingEnd] then .ok (p.mapping acc, s.next)
    else if !acc.isEmpty && !s.at? [.flowEntry] then .error s.problem
    else
      let s := if acc.isEmpty then s else s.next
      match s.rest with
      | .flowMappingEnd :: _ => .ok (p.mapping acc, s.next)
      | .key :: _ => do
        let (k, s) ← optional n .flow [.value, .flowEntry, .flowMappingEnd] s.next
        let (v, s) ← valueOf n .flow [.flowEntry, .flowMappingEnd] s
        flowMapping n p ((k, v) :: acc) s
      | _ => do
        let (k, s) ← node n .flow s
        let (v, s) := s.add .empty
        flowMapping n p ((k, v) :: acc) s

end

/-! ## Documents -/

/-- The handles that every document knows. -/
def standardHandles : List (String × String) :=
  [("!", "!"), ("!!", Tag.stem)]

/-- The directives before a document: one version at most, and handles that are told once. -/
def directives (versions : Nat) (told : List (String × String)) :
    List Token → Option (List (String × String) × List Token)
  | .versionDirective major :: rest =>
    if versions == 0 && major == 1 then directives (versions + 1) told rest else none
  | .tagDirective handle stem :: rest =>
    if (told.lookup handle).isSome then none
    else directives versions ((handle, stem) :: told) rest
  | .otherDirective :: rest => directives versions told rest
  | rest => some (told ++ standardHandles, rest)

/-- What is left after the marks of a document's end. -/
def skipEnds : List Token → List Token
  | .documentEnd :: rest => skipEnds rest
  | rest => rest

/-- The only document, if nothing follows it. What follows may start with directives. -/
def single (found : Nat × Tokens) : Reading (Graph × Option Nat) :=
  match skipEnds found.2.rest with
  | [] => .ok (found.2.graph, some found.1)
  | rest => do
    let (_, rest) ← orUnreadable (directives 0 [] rest)
    .error ({ rest } : Tokens).problem

/-- The graph of the one document that tokens hold, and its root; none of an empty text. -/
def Graph.ofTokens (tokens : List Token) : Reading (Graph × Option Nat) :=
  let depth := 4 * tokens.length + 4
  match tokens with
  | [] => .ok ({}, none)
  | .documentStart :: _ | .versionDirective _ :: _ | .tagDirective .. :: _
  | .otherDirective :: _ => do
    match ← orUnreadable (directives 0 [] tokens) with
    | (handles, .documentStart :: rest) =>
      match rest with
      | [] | .documentEnd :: _ | .documentStart :: _ | .versionDirective _ :: _
      | .tagDirective .. :: _ | .otherDirective :: _ =>
        single (({ rest } : Tokens).add .empty)
      | rest => single (← node depth .block { rest, handles })
    | (_, rest) => .error ({ rest } : Tokens).problem
  | tokens => do single (← node depth .block { rest := tokens, handles := standardHandles })

end ApiModels.Yaml
