/-
ApiModels.Model.Resource — building the model of a resource.

A draft is all of a model but the names of its structs. Only naming them
changes the registry. So `Builder.resource` returns the registry beside its
result: it is the registry after the run, whether a model came of it or
not.
-/
import ApiModels.Field.Names
import ApiModels.Model.Sides
import ApiModels.Struct.Assign
import ApiModels.Value.Order

namespace ApiModels

/-- A model whose structs are not named yet. -/
structure Draft where
  name : String
  plugin : Plugin
  createFields : List Field
  updateFields : List Field
  responseFields : List Field
  modelFields : List Field
  updateActions : List UpdateAction
  standaloneActions : List UpdateAction
  filters : List Filter

namespace Builder

/-! ## Actions -/

/-- The path of an action's operation; empty if it does not exist. -/
def actionPath (b : Builder) (id : Value) : Result Value := do
  .ok ((← b.pathOf? id).getD (.text ""))

/-- Update actions with the paths of their operations. -/
def resolveActions (b : Builder) : List ActionSettings → Result (List UpdateAction)
  | [] => .ok []
  | a :: rest => do
    let path ← b.actionPath a.operation
    let others ← b.resolveActions rest
    .ok ({ name := .scalar a.name, operation := a.operation, param := a.param
           compareKey := a.compareKey.orElse a.param, path := path } :: others)

/-- The update actions of a resource in the order of their names. -/
def updateActions (b : Builder) (r : ResourceSettings) : Result (List UpdateAction) := do
  b.resolveActions (← sortOnKey (·.name) r.updateActions)

/-- Actions that are no updates, with operations derived from the base id. -/
def standaloneActions (b : Builder) (base : Value) : List Value → Result (List UpdateAction)
  | [] => .ok []
  | name :: rest => do
    let id := ResourceSettings.derivedId base (← name.told)
    let path ← b.actionPath id
    let others ← b.standaloneActions base rest
    .ok ({ name := name, operation := id, path := path } :: others)

/-! ## Path parameters -/

/-- What is said of a field that fills a parameter of the creation path. -/
def pathParamInfo (f : FieldInfo) : FieldInfo :=
  { f with required := true, readOnly := false, isPathParam := true }

/-- A new field that fills a parameter of the creation path. -/
def pathParamField (name : Scalar) : Field :=
  .leaf (pathParamInfo { name := name, description := "Required path parameter" })

/-- Demands a path parameter among the fields of the model. -/
def demandPathParam (model : List Field) (name : Scalar) : List Field :=
  match Field.find? model name with
  | some f => Field.put model { f with toFieldInfo := pathParamInfo f.toFieldInfo }
  | none => model ++ [pathParamField name]

/-- Adds a path parameter to the fields that creation accepts, unless it is there. -/
def acceptPathParam (create : List Field) (name : Scalar) : List Field :=
  if name.isAmong (Field.names create) then create else create ++ [pathParamField name]

/-- The fields that fill the parameters of the creation path. -/
def pathParamNames (r : ResourceSettings) : Result (List Scalar) :=
  match r.createOperation with
  | some c => Value.keys (c.pathParams.map (·.2))
  | none => .ok []

/-! ## The draft -/

/-- Fields whose presence means that a resource is made in the background. -/
def pollingFields : List Scalar := [.text "state", .text "status"]

/-- The names that updates accept: the fields of the update body and the parameters of actions. -/
def updatableNames (update : List Field) (actions : List UpdateAction) : Result (List Scalar) := do
  let params ← Value.keys ((actions.map (·.param)).filter Value.given)
  .ok (Field.names update ++ params)

/-- Response fields in the state that the model's fields of the same names are in. -/
def alignResponse (model response : List Field) : List Field :=
  response.map (fun f => (Field.find? model f.name).getD f)

/-- The model of a resource before its structs are named. -/
def draft (b : Builder) (r : ResourceSettings) : Result Draft := do
  let plugin ← Plugin.ofValue r.plugin
  let _ ← operationIds r plugin
  let name ← r.name.asText
  let label := Name.spaced name
  let create ← b.createFields r plugin
  let update ← b.updateFields r plugin
  let response ← b.responseFields r plugin
  let updateActions ← b.updateActions r
  let standaloneActions ← b.standaloneActions r.baseOperationId r.actions
  let filters ←
    Filter.ofOperation b.document (ResourceSettings.derivedId r.baseOperationId "list") label
  let model ← modelFields r create response plugin
  let pathParams ← pathParamNames r
  let model ← Field.requireSortable (pathParams.foldl demandPathParam model)
  let create := pathParams.foldl acceptPathParam create
  let model := Field.describeAll label (← Field.requireDescribable model)
  let updatable ← updatableNames update updateActions
  let model := Field.deriveServerComputed create (Field.deriveForceNew updatable model)
  let response := alignResponse model response
  let policy := b.extractor.policy
  let inputs := Field.names create
  let marked := fun fields => Field.markExcluded policy inputs (.text "") (Field.sortByName fields)
  .ok
    { name, plugin
      createFields := Field.sortByName create
      updateFields := Field.sortByName update
      responseFields := ← marked response
      modelFields := ← marked model
      updateActions, standaloneActions, filters }

/-! ## The model -/

/-- A model from a draft whose structs are named. -/
def finish (b : Builder) (r : ResourceSettings) (d : Draft) (model response : List Field) :
    Result ResourceModel := do
  let apiPaths ← b.apiPaths r d.plugin
  let (model, found) := Field.collectAll {} model
  let (service, cleanName) := Name.split d.name
  .ok
    { name := d.name, service, cleanName
      plugin := d.plugin
      operations := ← operationIds r d.plugin
      apiPaths
      createFields := d.createFields
      updateFields := d.updateFields
      responseFields := response
      modelFields := model
      updateActions := d.updateActions
      standaloneActions := d.standaloneActions
      filters := d.filters
      terminationAttributes := r.terminationAttributes
      nestedStructs := found.sorted
      skipPolling := !(Field.names response).any (fun name => name.isAmong pollingFields) }

/-- The model of a resource, and the registry with the names of its structs. -/
def resource (b : Builder) (r : ResourceSettings) (registry : NameRegistry) :
    Result ResourceModel × NameRegistry :=
  match b.draft r with
  | .error e => (.error e, registry)
  | .ok d =>
    match Field.nameStructs "" registry d.modelFields with
    | (.error e, registry) => (.error e, registry)
    | (.ok model, registry) =>
      match Field.nameStructs "" registry d.responseFields with
      | (.error e, registry) => (.error e, registry)
      | (.ok response, registry) => (b.finish r d model response, registry)

end Builder

end ApiModels
