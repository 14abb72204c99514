/-
ApiModels.Model.Export — the document that models are handed on in.

It holds the models, once each the structs that their fields nest, and a
head that counts both. `Export.requireWritable` says where it can be
written.
-/
import ApiModels.Model.Run
import ApiModels.Json.Printer
import ApiModels.Path

namespace ApiModels

/-- What is handed on: models, the structs they share, and where they come from. -/
structure Export where
  provider : Value
  source : Value
  models : List ResourceModel
  structs : List Field
  structCount : Nat

namespace Export

/-- Models with fields that have been changed. -/
def replaceFields : List ResourceModel → List (List Field) → List ResourceModel
  | m :: ms, fs :: rest => { m with modelFields := fs } :: replaceFields ms rest
  | ms, _ => ms

/-- Models and the structs of their fields, collected over all of them. -/
def ofModels (provider source : Value) (models : List ResourceModel) (registry : NameRegistry) :
    Export :=
  let (fields, found) := Field.collectLists {} (models.map (·.modelFields))
  { provider, source
    models := replaceFields models fields
    structs := found.sorted
    structCount := registry.size }

/-- The head of the document. `createdAt` is the time of its making, if it is told. -/
def metadata (e : Export) (createdAt : Option String) : Value :=
  .record
    ((match createdAt with
      | some time => [("created_at", .text time)]
      | none => []) ++
     [("provider", e.provider),
      ("openapi_schema", e.source),
      ("resources", .int (e.models.filter (fun m => !m.isDataSourceOnly)).length),
      ("data_sources", .int (e.models.filter (fun m => m.isDataSourceOnly)).length),
      ("nested_types", .int e.structCount)])

/-- A struct with its fields. -/
def structDocument (s : Field) : Value :=
  .record [("name", .text s.attrTypeRef), ("fields", .list (Field.documents s.properties))]

/-- The structs of the document. -/
def structDocuments (e : Export) : Value :=
  .list (e.structs.map structDocument)

/-- The whole document. -/
def document (e : Export) (createdAt : String) : Value :=
  .record
    [("metadata", e.metadata (some createdAt)),
     ("models", .list (e.models.map ResourceModel.document)),
     ("nested_types", e.structDocuments)]

/-- The text of the document. -/
def text (e : Export) (createdAt : String) : Result String :=
  match Json.print .indented (e.document createdAt) with
  | .ok text => .ok text
  | .error stop => .error stop.cause

/--
The document can be written at a path. A NUL in the directory shows when the directory is made, one
in the name of the file when the file is.
-/
def requireWritable (files : Files) (path : Path) : Result Unit :=
  if path.parent.holdsNul then .error .nulInPath
  else if !files.accepts path then .error (.unwritable path.toString)
  else if path.holdsNul then .error .nulInPath
  else .ok ()

end Export

end ApiModels
