/-
ApiModels.Config.Basic — what a run is told to do.

A configuration names a document and the resources and data sources whose
models are wanted. It is read from a mapping; settings keep the values
that they have there, whatever their kind, and are looked at only when
they are needed.
-/
import ApiModels.Number.Literal
import ApiModels.Policy
import ApiModels.Path

namespace ApiModels

/-- An update that changes one attribute by an operation of its own. -/
structure ActionSettings where
  name : Scalar
  operation : Value
  param : Value
  compareKey : Value

/-- A named parameter. -/
structure ParameterSettings where
  name : Value
  type : Value

/-- An operation that creates a resource in place of the usual one. -/
structure CreateSettings where
  operationId : Value
  /-- URL parameters and the fields that fill them. -/
  pathParams : Members

/-- One side of a link. -/
structure EndpointSettings where
  param : Value
  retrieveOp : Value

/-- A resource whose model is wanted. -/
structure ResourceSettings where
  name : Value
  baseOperationId : Value
  plugin : Value
  offeringType : Value
  updateActions : List ActionSettings
  actions : List Value
  terminationAttributes : List ParameterSettings
  createOperation : Option CreateSettings
  skipOperations : List Value
  linkOp : Value
  unlinkOp : Value
  source : Option EndpointSettings
  target : Option EndpointSettings
  linkParams : List ParameterSettings

/-- A data source whose model is wanted. -/
structure DataSourceSettings where
  name : Value
  baseOperationId : Value

/-- Settings for the run as a whole. -/
structure GeneratorSettings where
  openapiSchema : Value
  outputDir : Value
  providerName : Value
  maxDepth : Int
  identifierField : Value
  excludedFields : List Value
  setFields : List Value
  fieldOverrides : Members

/-- A configuration. -/
structure Config where
  generator : GeneratorSettings
  resources : List ResourceSettings
  dataSources : List DataSourceSettings
  apiToken : String := ""
  logLevel : String := "INFO"
  /-- The directory that the document's path starts from. -/
  baseDir : String := "."

/-- The directory for models unless another is set. -/
def GeneratorSettings.defaultOutputDir : String := "./output/model"

namespace Value

/-- The whole number that a text denotes; `literal` is how the text is told. -/
def readNumber (literal : Scalar) (text : String) : Result Int :=
  match Number.ofText text with
  | .ok n => .ok n
  | .error .notANumber => .error (.notAWholeNumber 10 literal)
  | .error (.tooLong digits) => .error (.tooManyDigits (some digits))

/-- Bytes as a text of as many characters, the one way in which they can denote a number. -/
def charactersOf (bs : List UInt8) : String :=
  String.ofList (bs.map fun b => if b.toNat < 0x80 then Char.ofNat b.toNat else '\uFFFD')

/-- A value as a whole number: a double is cut toward zero, a text and bytes are read. -/
def wholeNumber : Value → Result Int
  | .int n => .ok n
  | .bool b => .ok (if b then 1 else 0)
  | .float x =>
    match x.truncate?, x with
    | some n, _ => .ok n
    | none, .nan => .error .undefinedWholeNumber
    | none, _ => .error .infiniteWholeNumber
  | .text s => readNumber (.text s) s
  | .scalar (.bytes bs) =>
    readNumber (.bytes (bs.take Failure.greatestExcerpt)) (charactersOf bs)
  | _ => .error .wrongShape

/-- Reads every item of a list. -/
def readEach {α : Type} (read : Value → Result α) : List Value → Result (List α)
  | [] => .ok []
  | v :: vs => do
    let a ← read v
    let rest ← readEach read vs
    .ok (a :: rest)

end Value

/-! ## Reading -/

/-- Update actions by their names. -/
def ActionSettings.ofMembers : Members → Result (List ActionSettings)
  | [] => .ok []
  | (name, v) :: rest => do
    let ms ← v.membersOrNone
    let others ← ofMembers rest
    let empty : Value := .text ""
    .ok (⟨name, ms.getOr "operation" empty, ms.getOr "param" empty,
      ms.getOr "compare_key" empty⟩ :: others)

/-- A parameter, a text unless another type is set. -/
def ParameterSettings.ofValue (v : Value) : Result ParameterSettings := do
  let ms ← v.members
  .ok ⟨ms.getOr "name" (.text ""), ms.getOr "type" (.text "string")⟩

/-- A create operation; a value that is not given is none. -/
def CreateSettings.ofValue (v : Value) : Result (Option CreateSettings) :=
  if v.given then do
    let ms ← v.members
    .ok (some ⟨ms.getOr "operation_id" (.text ""), ← (ms.get "path_params").association⟩)
  else .ok none

/-- One side of a link; a value that is not given is none. -/
def EndpointSettings.ofValue (v : Value) : Result (Option EndpointSettings) :=
  if v.given then do
    let ms ← v.members
    .ok (some ⟨ms.getOr "param" (.text ""), ms.getOr "retrieve_op" (.text "")⟩)
  else .ok none

/-- A resource. One with a link operation is a link unless its plugin is set. -/
def ResourceSettings.ofValue (v : Value) : Result ResourceSettings := do
  let ms ← v.members
  let empty : Value := .text ""
  let linkOp := ms.getOr "link_op" empty
  let plugin := (ms.get "plugin").orElse (.text (if linkOp.given then "link" else "standard"))
  let updateActions ← ActionSettings.ofMembers (← (ms.get "update_actions").membersOrNone)
  let actions ← (ms.get "actions").itemsOrNone
  let terminationAttributes ←
    Value.readEach ParameterSettings.ofValue (← (ms.get "termination_attributes").itemsOrNone)
  let createOperation ← CreateSettings.ofValue (ms.get "create_operation")
  let skipOperations ← (ms.get "skip_operations").itemsOrNone
  let source ← EndpointSettings.ofValue (ms.get "source")
  let target ← EndpointSettings.ofValue (ms.get "target")
  let linkParams ←
    Value.readEach ParameterSettings.ofValue (← (ms.get "link_params").itemsOrNone)
  .ok
    { name := ms.getOr "name" empty
      baseOperationId := ms.getOr "base_operation_id" empty
      plugin, offeringType := ms.getOr "offering_type" empty
      updateActions, actions, terminationAttributes, createOperation, skipOperations
      linkOp, unlinkOp := ms.getOr "unlink_op" empty
      source, target, linkParams }

/-- A data source. -/
def DataSourceSettings.ofValue (v : Value) : Result DataSourceSettings := do
  let ms ← v.members
  .ok ⟨ms.getOr "name" (.text ""), ms.getOr "base_operation_id" (.text "")⟩

/-- Settings for the run as a whole. -/
def GeneratorSettings.ofValue (v : Value) : Result GeneratorSettings := do
  let ms ← v.membersOrNone
  let maxDepth ← (ms.getOr "max_depth" (.int 3)).wholeNumber
  let excludedFields ← (ms.get "excluded_fields").itemsOrNone
  let setFields ← (ms.get "set_fields").itemsOrNone
  let fieldOverrides ← (ms.get "field_overrides").association
  .ok
    { openapiSchema := ms.getOr "openapi_schema" (.text "")
      outputDir := (ms.get "output_dir").orElse (.text defaultOutputDir)
      providerName := ms.getOr "provider_name" (.text "")
      maxDepth
      identifierField := (ms.get "identifier_field").orElse (.text "uuid")
      excludedFields, setFields, fieldOverrides }

namespace Config

/-- The configuration that a mapping states. -/
def ofValue (v : Value) : Result Config := do
  let ms ← v.membersOrNone
  let generator ← GeneratorSettings.ofValue (ms.get "generator")
  let resources ← Value.readEach ResourceSettings.ofValue (← (ms.get "resources").itemsOrNone)
  let dataSources ←
    Value.readEach DataSourceSettings.ofValue (← (ms.get "data_sources").itemsOrNone)
  .ok { generator, resources, dataSources }

/-- The rules for fields. -/
def policy (c : Config) : Result Policy :=
  Policy.ofValues (.list c.generator.excludedFields) (.list c.generator.setFields)
    (.object c.generator.fieldOverrides)

/-- Where the document is: an address, an absolute path, or a path from the base directory. -/
def schemaSource (c : Config) : Result String := do
  let source ← c.generator.openapiSchema.asText
  if isAddress source || (Path.ofString source).isAbsolute then .ok source
  else .ok ((Path.ofString c.baseDir).join (Path.ofString source)).toString

/-- A value that is the text. -/
def isNamed (name : String) (v : Value) : Bool := v.text? == some name

/-- The first resource with a name, which may be any value. -/
def resource? (c : Config) (name : Value) : Option ResourceSettings :=
  c.resources.find? (fun r => r.name.same name)

/-- The first data source with a name, which may be any value. -/
def dataSource? (c : Config) (name : Value) : Option DataSourceSettings :=
  c.dataSources.find? (fun d => d.name.same name)

end Config

/-! ## Operations -/

namespace ResourceSettings

/-- The id of an operation derived from the base id. -/
def derivedId (base : Value) (operation : String) : Value :=
  .text (base.display ++ "_" ++ operation)

/-- The operation that creates the resource. -/
def createId (r : ResourceSettings) : Value :=
  match r.createOperation with
  | some c => if c.operationId.given then c.operationId else derivedId r.baseOperationId "create"
  | none => derivedId r.baseOperationId "create"

/-- The ids of the resource's operations; the base id must be one that can be told. -/
def operationIds (r : ResourceSettings) : Result (List (String × Value)) := do
  let _ ← r.baseOperationId.told
  .ok
    [("list", derivedId r.baseOperationId "list"),
     ("create", r.createId),
     ("retrieve", derivedId r.baseOperationId "retrieve"),
     ("partial_update", derivedId r.baseOperationId "partial_update"),
     ("destroy", derivedId r.baseOperationId "destroy")]

/-- The operations that a resource of its plugin relies on, by role. -/
def neededOperations (r : ResourceSettings) : List (String × Value) :=
  if Config.isNamed "link" r.plugin then
    [("link", r.linkOp), ("unlink", r.unlinkOp)] ++
      match r.source with
      | some s => if s.retrieveOp.given then [("source_retrieve", s.retrieveOp)] else []
      | none => []
  else
    let id (operation : String) := (operation, derivedId r.baseOperationId operation)
    [id "list", id "retrieve", id "partial_update"] ++
      if Config.isNamed "order" r.plugin then []
      else [("create", r.createId), id "destroy"]

/-- The operations to check: those needed whose roles are not to be skipped. -/
def operationsToCheck (r : ResourceSettings) : Result (List (String × Value)) := do
  let _ ← r.operationIds
  .ok (r.neededOperations.filter (fun o => !r.skipOperations.any (Config.isNamed o.1)))

end ResourceSettings

/-- The ids of a data source's operations; the base id must be one that can be told. -/
def DataSourceSettings.operationIds (d : DataSourceSettings) : Result (List (String × Value)) := do
  let _ ← d.baseOperationId.told
  .ok
    [("list", ResourceSettings.derivedId d.baseOperationId "list"),
     ("retrieve", ResourceSettings.derivedId d.baseOperationId "retrieve")]

end ApiModels
