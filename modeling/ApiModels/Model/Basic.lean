/-
ApiModels.Model.Basic — the model of one resource or data source.

A model holds the fields of a resource from four sides: what its creation
accepts, what an update accepts, what is returned, and the fields of the
resource itself, in which the others are reconciled.
-/
import ApiModels.Field.Document
import ApiModels.Config.Basic

namespace ApiModels

/-- How a resource comes into being. -/
inductive Plugin where
  /-- By a request with the resource's own body. -/
  | standard
  /-- By an order of an offering. -/
  | order
  /-- As a relation between two resources that exist. -/
  | link
  deriving DecidableEq, Repr

/-- An update, or an action beside the updates, with the path of its operation. -/
structure UpdateAction where
  name : Value
  operation : Value
  param : Value := .text ""
  compareKey : Value := .text ""
  path : Value := .text ""

/-- The model of one resource or data source. -/
structure ResourceModel where
  name : String
  service : String
  cleanName : String
  plugin : Plugin := .standard
  operations : List (String × Value)
  apiPaths : Members
  createFields : List Field := []
  updateFields : List Field := []
  responseFields : List Field
  modelFields : List Field
  updateActions : List UpdateAction := []
  standaloneActions : List UpdateAction := []
  filters : List Filter
  terminationAttributes : List ParameterSettings := []
  /-- The structs nested in the model's fields, in the order of their names. -/
  nestedStructs : List Field
  isDataSourceOnly : Bool := false
  skipPolling : Bool := false

namespace Plugin

/-- The name of a plugin. -/
def name : Plugin → String
  | .standard => "standard"
  | .order => "order"
  | .link => "link"

/-- The plugin that settings name; a value that is not given means the standard one. -/
def ofValue (v : Value) : Result Plugin := do
  match ← (v.orElse (.text standard.name)).key with
  | .text s =>
    match [standard, order, link].find? (fun p => p.name == s) with
    | some p => .ok p
    | none => Failure.showing [v] (.unknownPlugin v)
  | _ => Failure.showing [v] (.unknownPlugin v)

end Plugin

/-- An action as an object. -/
def UpdateAction.document (a : UpdateAction) : Value :=
  .record
    [("name", a.name), ("operation", a.operation), ("param", a.param),
     ("compare_key", a.compareKey), ("path", a.path)]

/-- A parameter as an object. -/
def ParameterSettings.document (p : ParameterSettings) : Value :=
  .record [("name", p.name), ("type", p.type)]

namespace ResourceModel

/-- The names of the structs nested in the model's fields. -/
def structNames (m : ResourceModel) : List String :=
  m.nestedStructs.map (fun s => s.attrTypeRef)

/-- A model as an object. -/
def document (m : ResourceModel) : Value :=
  .record
    [("name", .text m.name),
     ("service", .text m.service),
     ("clean_name", .text m.cleanName),
     ("plugin", .text m.plugin.name),
     ("operations", .record m.operations),
     ("api_paths", .object m.apiPaths),
     ("is_order", .bool (m.plugin == .order)),
     ("is_link", .bool (m.plugin == .link)),
     ("is_data_source_only", .bool m.isDataSourceOnly),
     ("skip_polling", .bool m.skipPolling),
     ("create_fields", .list (Field.documents m.createFields)),
     ("update_fields", .list (Field.documents m.updateFields)),
     ("response_fields", .list (Field.documents m.responseFields)),
     ("model_fields", .list (Field.documents m.modelFields)),
     ("update_actions", .list (m.updateActions.map UpdateAction.document)),
     ("standalone_actions", .list (m.standaloneActions.map UpdateAction.document)),
     ("filter_params", .list (m.filters.map Filter.document)),
     ("termination_attributes", .list (m.terminationAttributes.map ParameterSettings.document)),
     ("nested_structs", .texts m.structNames)]

end ResourceModel

end ApiModels
