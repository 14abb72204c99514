/-
ApiModels.Config.Check — whether a configuration can be worked with.

`Config.validate` looks at the configuration alone, `validateOperations`
at the document as well. Both report the first problem.
-/
import ApiModels.Config.Basic
import ApiModels.Document.Operations

namespace ApiModels

/-- Checks a resource beside the names of those before it, and gives its own name. -/
def ResourceSettings.validate (seen : List Scalar) (r : ResourceSettings) : Result Scalar := do
  if !r.name.given then ConfigProblem.resourceUnnamed.fail
  else if !r.baseOperationId.given then (ConfigProblem.resourceWithoutBase r.name).fail
  else
    let name ← r.name.key
    if name.isAmong seen then (ConfigProblem.resourceRepeated r.name).fail
    else if !ConfigProblem.plugins.any (fun p => Config.isNamed p r.plugin) then
      (ConfigProblem.unknownPlugin r.name r.plugin).fail
    else if Config.isNamed "order" r.plugin && !r.offeringType.given then
      (ConfigProblem.offeringTypeRequired r.name).fail
    else if Config.isNamed "link" r.plugin && !r.linkOp.given then
      (ConfigProblem.linkOperationRequired r.name).fail
    else .ok name

/-- Checks a data source beside the names of those before it, and gives its own name. -/
def DataSourceSettings.validate (seen : List Scalar) (d : DataSourceSettings) : Result Scalar := do
  if !d.name.given then ConfigProblem.dataSourceUnnamed.fail
  else if !d.baseOperationId.given then (ConfigProblem.dataSourceWithoutBase d.name).fail
  else
    let name ← d.name.key
    if name.isAmong seen then (ConfigProblem.dataSourceRepeated d.name).fail
    else .ok name

/-- Checks definitions one after another, each beside the names of those before it. -/
def validateEach {α : Type} (validate : List Scalar → α → Result Scalar) :
    List Scalar → List α → Result Unit
  | _, [] => .ok ()
  | seen, a :: rest => do
    let name ← validate seen a
    validateEach validate (name :: seen) rest

/-- Checks that operations exist, and reports the first that does not. -/
def requireOperations (d : Document) (problem : Value → String → ConfigProblem) :
    List (String × Value) → Result Unit
  | [] => .ok ()
  | (role, id) :: rest => do
    if ← d.has id then requireOperations d problem rest
    else (problem id role).fail

namespace Config

/-- Checks required settings and the uniqueness of names. -/
def validate (c : Config) : Result Unit := do
  if !c.generator.openapiSchema.given then ConfigProblem.schemaRequired.fail
  else if !c.generator.providerName.given then ConfigProblem.providerRequired.fail
  else if c.generator.maxDepth < 1 then (ConfigProblem.depthTooSmall c.generator.maxDepth).fail
  else
    validateEach ResourceSettings.validate [] c.resources
    validateEach DataSourceSettings.validate [] c.dataSources

/-- Checks the operations of resources. -/
def requireResources (d : Document) : List ResourceSettings → Result Unit
  | [] => .ok ()
  | r :: rest => do
    requireOperations d (.resourceOperationMissing r.name) (← r.operationsToCheck)
    requireResources d rest

/-- Checks the list operations of data sources. -/
def requireDataSources (d : Document) : List DataSourceSettings → Result Unit
  | [] => .ok ()
  | s :: rest => do
    requireOperations d (.dataSourceOperationMissing s.name) ((← s.operationIds).take 1)
    requireDataSources d rest

/-- Checks that every operation exists that the configuration relies on. -/
def validateOperations (c : Config) (d : Document) : Result Unit := do
  requireResources d c.resources
  requireDataSources d c.dataSources

end Config

end ApiModels
