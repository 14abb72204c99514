/-
ApiModels.Document.Bodies — the schemas, bodies and parameters that a
document declares.

A body is read in its JSON form. A response body is that of the first
success code with a JSON schema.
-/
import ApiModels.Document.Operations

namespace ApiModels

namespace Document

/-- The content type whose schemas are read. -/
def jsonContent : String := "application/json"

/-- The codes of success, in the order in which their responses are tried. -/
def successCodes : List (String × Int) := [("200", 200), ("201", 201), ("204", 204)]

/-- A reference to a schema that the document declares under a name, which stands in it as told. -/
def schema (d : Document) (name : Value) : Result Value := do
  let components ← (d.root.get "components").membersOrNone
  let schemas := (components.get "schemas").orElse (.object [])
  if ← schemas.contains name then do
    .ok (.object [(.text Pointer.member, .text ("#/components/schemas/" ++ (← name.told)))])
  else (MissingPart.schema name).fail

/-- The JSON schema of a request or response body; null when it has none. -/
def bodySchema (body : Members) : Result Value := do
  let content ← (body.get "content").membersOrNone
  let json ← (content.get jsonContent).membersOrNone
  .ok (json.get "schema")

/-- The schema of an operation's request body. -/
def requestSchema (d : Document) (id : Value) : Result Value := do
  let operation ← d.operation id
  match (← d.resolve (operation.spec.get "requestBody")).node with
  | none | some [] => (MissingPart.requestBody id).fail
  | some body =>
    match ← bodySchema body with
    | .null => (MissingPart.requestContent id).fail
    | schema => .ok schema

/-- The response for a code, which may be written as a text or as a number. -/
def responseFor (responses : Members) (code : String × Int) : Value :=
  match responses.get? code.1 with
  | some response => response
  | none => (responses.lookup (.int code.2)).getD .null

/-- The schema of the first response among `codes` that has one. -/
def firstResponseSchema (d : Document) (responses : Members) :
    List (String × Int) → Result (Option Value)
  | [] => .ok none
  | code :: rest => do
    match (← d.resolve (responseFor responses code)).node with
    | none | some [] => d.firstResponseSchema responses rest
    | some body =>
      match ← bodySchema body with
      | .null => d.firstResponseSchema responses rest
      | schema => .ok (some schema)

/-- The schema of an operation's response body on success. -/
def responseSchema (d : Document) (id : Value) : Result Value := do
  let operation ← d.operation id
  let responses ← (operation.spec.get "responses").membersOrNone
  match ← d.firstResponseSchema responses successCodes with
  | some schema => .ok schema
  | none => (MissingPart.successResponse id).fail

/-- The objects that parameters lead to; those that lead nowhere or are empty are left out. -/
def resolveParameters (d : Document) : List Value → Result (List Members)
  | [] => .ok []
  | raw :: rest => do
    let resolved ← d.resolve raw
    let others ← d.resolveParameters rest
    match resolved.node with
    | none | some [] => .ok others
    | some param => .ok (param :: others)

/-- The parameters of an operation: those of its path first, then its own. -/
def parameters (d : Document) (id : Value) : Result (List Members) := do
  let operation ← d.operation id
  let own ← (operation.spec.get "parameters").itemsOrNone
  d.resolveParameters (operation.pathParameters ++ own)

end Document

end ApiModels
