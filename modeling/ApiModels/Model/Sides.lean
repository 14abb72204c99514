/-
ApiModels.Model.Sides — the fields of a resource from each side, as its
plugin reads them.

A standard resource is created by its own body and updated by another one.
An order is created by the attributes of its offering, to which every
order adds some of its own. A link is created by an action whose source
and target are always required, and is never updated in place.
-/
import ApiModels.Model.Basic
import ApiModels.Field.Merge
import ApiModels.Field.Status

namespace ApiModels

/-- What models are built from. -/
structure Builder where
  config : Config
  extractor : Extractor

namespace Builder

/-- A builder for a configuration and a document. -/
def ofConfig (c : Config) (d : Document) : Result Builder := do
  let policy ← c.policy
  let identifier ← (← c.generator.identifierField.key).lower
  .ok ⟨c, { document := d, policy, maxDepth := c.generator.maxDepth, identifier }⟩

/-- The document that models are built from. -/
def document (b : Builder) : Document := b.extractor.document

/-- The fields of an operation's request body; none if it has no body. -/
def requestFields (b : Builder) (id : Value) : Result (List Field) :=
  match b.document.requestSchema id with
  | .ok schema => b.extractor.extract schema
  | .error (.missing _) => .ok []
  | .error e => .error e

/-- Adds a field unless one of its name is there. The name must be a scalar. -/
def addField (fields : List Field) (name : Value) (make : Scalar → Field) :
    Result (List Field) := do
  let name ← name.key
  if name.isAmong (Field.names fields) then .ok fields
  else .ok (fields ++ [make name])

/-- Adds fields for parameters whose names are not there. -/
def addParameters (description : String) :
    List ParameterSettings → List Field → Result (List Field)
  | [], fields => .ok fields
  | p :: rest, fields => do
    let make (name : Scalar) := Field.ofParameter name (p.type.text?.getD "") description false
    addParameters description rest (← addField fields p.name make)

/-! ## Orders -/

/-- The name of the schema with an offering's attributes. -/
def offeringSchema (offeringType : String) : String :=
  String.ofList (offeringType.toList.filter (· != '.')) ++ "CreateOrderAttributes"

/-- The fields that every order accepts. -/
def orderCommonFields : List Field :=
  [.leaf { name := .text "offering", description := "Offering URL", required := true },
   .leaf { name := .text "project", description := "Project URL", required := true },
   .leaf { name := .text "plan", description := "Plan URL" },
   .leaf { name := .text "limits", type := .object, kind := .map, itemType := some .number
           description := "Resource limits" },
   .leaf { name := .text "start_date", format := .text dateTimeFormat
           description := "Order start date" },
   .leaf { name := .text "end_date", format := .text dateTimeFormat
           description := "Order end date" }]

/-- Fields with those of every order that they lack. -/
def withOrderFields (fields : List Field) : List Field :=
  fields ++ orderCommonFields.filter (fun f => !f.name.isAmong (Field.names fields))

/-! ## Links -/

/-- The parameters for the ends of a link, with their descriptions. -/
def endpointParams (r : ResourceSettings) : List (Value × String) :=
  let given (e : Option EndpointSettings) (description : String) : List (Value × String) :=
    match e with
    | some e => if e.param.given then [(e.param, description)] else []
    | none => []
  given r.source "Source resource UUID" ++ given r.target "Target resource UUID"

/-- Adds required fields for the ends of a link. -/
def addEndpoints : List (Value × String) → List Field → Result (List Field)
  | [], fields => .ok fields
  | (param, description) :: rest, fields => do
    let make (name : Scalar) : Field :=
      .leaf { name := name, description := description, required := true }
    addEndpoints rest (← addField fields param make)

/-- A field that tells an end of a link is always given, and a change of it makes a new link. -/
def markEndpoints (names : List Scalar) (fields : List Field) : List Field :=
  fields.map fun f =>
    if f.name.isAmong names then
      { f with required := true, readOnly := false, forceNew := true }
    else f

/-! ## The sides -/

/-- The fields that creation accepts. If a standard resource has none, its operation is told. -/
def createFields (b : Builder) (r : ResourceSettings) : Plugin → Result (List Field)
  | .standard => do
    let fields ← b.requestFields r.createId
    let _ ← if fields.isEmpty then r.createId.told else .ok ""
    .ok fields
  | .order => do
    let schema ← b.document.schema (.text (offeringSchema (← r.offeringType.asText)))
    .ok (withOrderFields (← b.extractor.extract schema))
  | .link => do
    let fields ← b.requestFields r.linkOp
    addParameters "Link parameter" r.linkParams (← addEndpoints (endpointParams r) fields)

/-- The fields that an update accepts. -/
def updateFields (b : Builder) (r : ResourceSettings) : Plugin → Result (List Field)
  | .link => .ok []
  | _ => b.requestFields (ResourceSettings.derivedId r.baseOperationId "partial_update")

/-- The fields that are returned. -/
def responseFields (b : Builder) (r : ResourceSettings) (plugin : Plugin) :
    Result (List Field) :=
  let id := ResourceSettings.derivedId r.baseOperationId "retrieve"
  let schema := b.document.responseSchema id
  match plugin with
  | .link =>
    match schema with
    | .ok schema => do
      let fields ← b.extractor.extract schema
      let names ← Value.keys ((endpointParams r).map (·.1))
      .ok (markEndpoints names fields)
    | .error (.missing _) => .ok []
    | .error e => .error e
  | _ => do b.extractor.extract (← schema)

/-- The fields of the resource itself, from what goes in and what comes out. -/
def modelFields (r : ResourceSettings) (create response : List Field) :
    Plugin → Result (List Field)
  | .order =>
    addParameters "Termination attribute" r.terminationAttributes (Field.mergeOrder create response)
  | _ => .ok (Field.merge create response)

/-- The ids of the resource's operations. -/
def operationIds (r : ResourceSettings) : Plugin → Result (List (String × Value))
  | .link => do .ok ((← r.operationIds) ++ [("link", r.linkOp), ("unlink", r.unlinkOp)])
  | _ => r.operationIds

/-- The path of an operation, if it exists. -/
def pathOf? (b : Builder) (id : Value) : Result (Option Value) := do
  .ok ((← b.document.find? id).map (fun o => .scalar o.path))

/-- The paths of the operations that exist, under the names given to them. -/
def pathsOf (b : Builder) : List (String × Value) → Result Members
  | [] => .ok []
  | (key, id) :: rest => do
    let path ← b.pathOf? id
    let others ← b.pathsOf rest
    match path with
    | some path => .ok ((.text key, path) :: others)
    | none => .ok others

/-- Adds the fields that fill the parameters of the creation path. -/
def addPathParams (paths : Members) : Members → Result Members
  | [] => .ok paths
  | (param, field) :: rest => do
    let name ← (Value.scalar param).told
    addPathParams (Members.set paths (.text ("CreatePathParam_" ++ name)) field) rest

/-- What a create operation of its own adds to the paths. -/
def createPaths (r : ResourceSettings) (paths : Members) : Result Members :=
  match r.createOperation with
  | some c =>
    if c.operationId.given && paths.has "Create" then
      addPathParams (Members.set paths (.text "CreateOperationID") c.operationId) c.pathParams
    else .ok paths
  | none => .ok paths

/-- The paths of a resource's operations. -/
def apiPaths (b : Builder) (r : ResourceSettings) : Plugin → Result Members
  | .link =>
    let id := ResourceSettings.derivedId r.baseOperationId
    let source := match r.source with
      | some s => if s.retrieveOp.given then [("SourceRetrieve", s.retrieveOp)] else []
      | none => []
    b.pathsOf ([("Base", id "list"), ("Retrieve", id "retrieve"), ("Link", r.linkOp),
      ("Unlink", r.unlinkOp)] ++ source)
  | _ => do
    let id := ResourceSettings.derivedId r.baseOperationId
    let paths ← b.pathsOf [("Base", id "list"), ("Create", r.createId), ("Retrieve", id "retrieve"),
      ("Update", id "partial_update"), ("Delete", id "destroy")]
    createPaths r paths

end Builder

end ApiModels
