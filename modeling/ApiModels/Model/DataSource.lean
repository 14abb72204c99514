/-
ApiModels.Model.DataSource — building the model of a data source.

The fields are those of the retrieve response, or else those of the items
of the list response; without either there are none.
-/
import ApiModels.Model.Resource

namespace ApiModels

namespace Builder

/-- The fields of the items that a list operation returns. -/
def listItemFields (b : Builder) (id : Value) : Result (List Field) :=
  match b.document.responseSchema id with
  | .error (.missing _) => .ok []
  | .error e => .error e
  | .ok schema => do
    match (← b.document.resolve schema).node with
    | none => .ok []
    | some list =>
      match ← b.extractor.schemaType list, list.get? "items" with
      | .array, some items => b.extractor.extract items
      | _, _ => .ok []

/-- The fields that a data source returns. -/
def dataSourceFields (b : Builder) (base : Value) : Result (List Field) :=
  match b.document.responseSchema (ResourceSettings.derivedId base "retrieve") with
  | .ok schema => b.extractor.extract schema
  | .error (.missing _) => b.listItemFields (ResourceSettings.derivedId base "list")
  | .error e => .error e

/-- The fields and filters of a data source before its structs are named. -/
def dataSourceDraft (b : Builder) (s : DataSourceSettings) :
    Result (String × List Field × List Filter) := do
  let _ ← s.operationIds
  let name ← s.name.asText
  let label := Name.spaced name
  let fields ← Field.requireDescribable (← b.dataSourceFields s.baseOperationId)
  let filters ←
    Filter.ofOperation b.document (ResourceSettings.derivedId s.baseOperationId "list") label
  let fields := Field.sortByName (Field.markDataSourceAll (Field.describeAll label fields))
  .ok (name, ← Field.markExcluded b.extractor.policy [] (.text "") fields, filters)

/-- The model of a data source from fields whose structs are named. -/
def finishDataSource (b : Builder) (s : DataSourceSettings) (name : String)
    (filters : List Filter) (fields response : List Field) : Result ResourceModel := do
  let id := ResourceSettings.derivedId s.baseOperationId
  let apiPaths ← b.pathsOf [("Base", id "list"), ("Retrieve", id "retrieve")]
  let (model, found) := Field.collectAll {} fields
  let (service, cleanName) := Name.split name
  .ok
    { name, service, cleanName
      operations := ← s.operationIds
      apiPaths
      responseFields := response
      modelFields := model
      filters
      nestedStructs := found.sorted
      isDataSourceOnly := true }

/-- The model of a data source, and the registry with the names of its structs. -/
def dataSource (b : Builder) (s : DataSourceSettings) (registry : NameRegistry) :
    Result ResourceModel × NameRegistry :=
  match b.dataSourceDraft s with
  | .error e => (.error e, registry)
  | .ok (name, fields, filters) =>
    match Field.nameStructs "" registry fields with
    | (.error e, registry) => (.error e, registry)
    | (.ok model, registry) =>
      match Field.nameStructs "" registry fields with
      | (.error e, registry) => (.error e, registry)
      | (.ok response, registry) => (b.finishDataSource s name filters model response, registry)

end Builder

end ApiModels
