/-
ApiModels.Model.Run — all models of a configuration.

Resources are built first, then data sources, in the order of the
configuration, and all share one registry of names. A run stops at the
first definition that fails, and says which one it was.
-/
import ApiModels.Model.DataSource

namespace ApiModels

/-- A resource or a data source whose model is wanted. -/
inductive Definition where
  | resource (r : ResourceSettings)
  | dataSource (s : DataSourceSettings)

/-- The name of a definition. -/
def Definition.name : Definition → Value
  | .resource r => r.name
  | .dataSource s => s.name

/-- The definitions of a configuration in the order in which they are built. -/
def Config.definitions (c : Config) : List Definition :=
  c.resources.map .resource ++ c.dataSources.map .dataSource

/-- A failure under the name of the definition that it belongs to, which must be one to tell. -/
def Failure.underName (name : Value) (e : Failure) : Failure :=
  match e with
  | .generation resource cause => .generation resource cause
  | e =>
    if !e.isModelError then e
    else if name.canBeTold then .generation name e
    else .tooManyDigits none

namespace Builder

/-- The model of a definition. -/
def definition (b : Builder) (d : Definition) (registry : NameRegistry) :
    Result ResourceModel × NameRegistry :=
  match d with
  | .resource r => b.resource r registry
  | .dataSource s => b.dataSource s registry

/-- The models of definitions, up to the first that fails. -/
def buildEach (b : Builder) (registry : NameRegistry) :
    List Definition → Result (List ResourceModel) × NameRegistry
  | [] => (.ok [], registry)
  | d :: rest =>
    match b.definition d registry with
    | (.error e, registry) => (.error (e.underName d.name), registry)
    | (.ok model, registry) =>
      match b.buildEach registry rest with
      | (.error e, registry) => (.error e, registry)
      | (.ok models, registry) => (.ok (model :: models), registry)

/-- The models of all definitions of the configuration. -/
def buildAll (b : Builder) (registry : NameRegistry) :
    Result (List ResourceModel) × NameRegistry :=
  b.buildEach registry b.config.definitions

end Builder

end ApiModels
