/-
ApiModels.Document.Operations — a document with an index of its
operations.

Operations stand under paths, in the order of the paths, and within a path
in a fixed order of methods. An operation counts if it is an object with
an `operationId`; of several with one id the first one is indexed.
-/
import ApiModels.Document.Reference
import ApiModels.Value.Order

namespace ApiModels

/-- An operation of a document. -/
structure Operation where
  id : Scalar
  path : Scalar
  method : String
  spec : Members
  /-- The parameters that all operations of the path share. -/
  pathParameters : List Value
  deriving Repr

/-- A document and its operations. -/
structure Document where
  root : Members
  operations : List Operation
  deriving Repr

namespace Operation

/-- The methods that are indexed, in this order: as a member's name, and as it is shown. -/
def methods : List (String × String) :=
  [("get", "GET"), ("put", "PUT"), ("post", "POST"), ("delete", "DELETE"), ("options", "OPTIONS"),
   ("head", "HEAD"), ("patch", "PATCH"), ("trace", "TRACE")]

/-- The operation with an id. -/
def find? (operations : List Operation) (id : Scalar) : Option Operation :=
  List.find? (fun o => o.id.same id) operations

/--
Adds the operation that a path item has under a method, if it has one with a new id. Of another one
with a known id it is told where it stands.
-/
def addMethod (path : Scalar) (item : Members) (method : String × String)
    (operations : List Operation) : Result (List Operation) :=
  match (item.get method.1).members? with
  | some spec =>
    let id := Members.get spec "operationId"
    if id.given then do
      let id ← id.key
      if (find? operations id).isSome then
        let _ ← Value.toldEach [.scalar id, .scalar path]
        .ok operations
      else
        let shared ← (item.get "parameters").itemsOrNone
        .ok (operations ++ [⟨id, path, method.2, spec, shared⟩])
    else .ok operations
  | none => .ok operations

/-- Adds the operations that a path item has under some methods. -/
def addMethods (path : Scalar) (item : Members) :
    List (String × String) → List Operation → Result (List Operation)
  | [], operations => .ok operations
  | method :: rest, operations => do
    addMethods path item rest (← addMethod path item method operations)

/-- Adds the operations of path items. -/
def addPaths : List (Scalar × Value) → List Operation → Result (List Operation)
  | [], operations => .ok operations
  | (path, item) :: rest, operations => do
    let item ← item.membersOrNone
    addPaths rest (← addMethods path item methods operations)

/-- The position that a whole number or a truth value means in a list of `length` items. -/
def position? (length : Nat) : Value → Option Nat
  | .int n =>
    let i := if n < 0 then n + length else n
    if 0 ≤ i ∧ i < length then some i.toNat else none
  | .bool b => if b.toNat < length then some b.toNat else none
  | _ => none

/-- Every entry of a list is the position of an entry that says nothing. -/
def pointsNowhere (entries : List Value) : Bool :=
  entries.all fun entry =>
    match position? entries.length entry with
    | some i => match entries[i]? with
      | some v => !v.given
      | none => false
    | none => false

/-- The operations under paths. A list of paths, or bytes, is read as positions in itself. -/
def ofPaths (paths : Value) : Result (List Operation) :=
  if paths.given then
    match paths.bare with
    | .object ms => do addPaths (← sortOnKey (·.1) ms) []
    | .list _ | .scalar (.bytes _) => do
      if pointsNowhere (← paths.items) then .ok [] else .error .wrongShape
    | _ => .error .wrongShape
  else .ok []

end Operation

namespace Document

/-- The document that a value is; a value that is not given is an empty document. -/
def ofValue (v : Value) : Result Document := do
  let root ← v.membersOrNone
  let operations ← Operation.ofPaths (root.get "paths")
  .ok ⟨root, operations⟩

/-- What a node leads to in the document. -/
def resolve (d : Document) (node : Value) : Result Resolution :=
  d.root.resolve node

/-- The operation with an id, which must be a scalar. -/
def find? (d : Document) (id : Value) : Result (Option Operation) := do
  .ok (Operation.find? d.operations (← id.key))

/-- Whether an operation has the id. -/
def has (d : Document) (id : Value) : Result Bool := do
  .ok (← d.find? id).isSome

/-- The operation with an id, which must exist. -/
def operation (d : Document) (id : Value) : Result Operation := do
  match ← d.find? id with
  | some o => .ok o
  | none => (MissingPart.operation id).fail

/-- The section that describes the document itself; empty when there is none. -/
def info (d : Document) : Result Members :=
  (d.root.getOr "info" (.object [])).members

/-- The document's title. -/
def title (d : Document) : Result Value := do
  .ok ((← d.info).getOr "title" (.text "Unknown API"))

/-- The document's version as text. -/
def version (d : Document) : Result String := do
  ((← d.info).getOr "version" (.text "")).told

end Document

end ApiModels
