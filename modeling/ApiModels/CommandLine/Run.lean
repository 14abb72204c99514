/-
ApiModels.CommandLine.Run — the commands of the program.

`generate` builds all models and writes them to a file, `inspect` shows the
fields of one model, `validate-config` checks the configuration against the
document. Each starts by reading the configuration.

Main definition: `run`, from the arguments and the surroundings to the
outcome.
-/
import ApiModels.CommandLine.Arguments
import ApiModels.CommandLine.Session
import ApiModels.Model.Export

namespace ApiModels.CommandLine

open Session

/-! ## Steps that commands share -/

/-- The layout of messages in the log. -/
def messageLayout : String := "%(levelname)s:%(name)s:%(message)s"

/--
Sets the level of the log. A level is named among the settings of the log; two of those, the layout
of messages and the layouts to choose from, are no levels. A name that is unknown means the usual
level.
-/
def setLevel : String → Result Unit
  | "BASIC_FORMAT" => .error (.unknownLevel messageLayout)
  | "_STYLES" => .error .wrongShape
  | _ => .ok ()

/-- Reads and checks the configuration, and sets the level of the log. -/
def openConfig (w : Surroundings) (settings : RunSettings) : Session Config := do
  let c ← orStop "❌ Invalid configuration: " do
    let c ← Config.load w.yaml w.files w.environment settings.configPath
    c.validate
    .ok c
  orFail (if settings.verbose then .ok () else setLevel c.logLevel)
  return c

/-- The file in which the document of a source is kept. -/
def cachePath (s : Source) : Path := ⟨"", [".cache", "schemas", s.cacheName]⟩

/-- The source of the configured document. -/
def sourceOf (w : Surroundings) (c : Config) (useCache : Bool) : Result Source := do
  .ok { location := ← c.schemaSource, yaml := w.yaml, token := some c.apiToken, useCache }

/-- The cache for a source. -/
def cacheOf (w : Surroundings) (s : Source) : Cache :=
  let path := cachePath s
  { entry := (w.files.read? path).map fun text => { text, age := w.cacheAge }
    writable := w.files.accepts path }

/-- Loads the document, says so, and checks the configured operations against it. -/
def openDocument (w : Surroundings) (c : Config) (settings : RunSettings) (problem : String) :
    Session Document := do
  let s ← orStop problem (sourceOf w c settings.useCache)
  let cache := cacheOf w s
  let loading := s.load w.files cache false (w.reply s.location)
  if loading.cache.entry != cache.entry then
    match loading.cache.entry with
    | some e => write (cachePath s) e.text
    | none => pure ()
  let root ← orStop problem loading.result
  let d ← orStop problem (Document.ofValue (.object root))
  let title ← orStop problem (do (← d.title).told)
  let version ← orStop problem d.version
  say ("Loaded " ++ title ++ " " ++ version ++ " (" ++ toString d.operations.length
    ++ " operations)")
  orStop problem (c.validateOperations d)
  return d

/-! ## Commands -/

/-- The lines at the start of a generation. -/
def banner : List String :=
  let rule := String.ofList (List.replicate 44 '=')
  [rule,
   "║   provider-modelgen                    ║",
   "║   OpenAPI → Resource Models            ║",
   rule,
   ""]

/-- The file to write: the one that is asked for, or else one in the configured directory. -/
def outputPath (c : Config) (output : Option String) : Result Path :=
  let configured : Result Path := do
    let directory ← c.generator.outputDir.asText
    .ok ((Path.ofString directory).join (Path.ofString "models.json"))
  match output with
  | some path => if path.isEmpty then configured else .ok (Path.ofString path)
  | none => configured

/-- Builds all models and writes them to a file. -/
def generate (w : Surroundings) (settings : RunSettings) (output : Option String) :
    Session Unit := do
  banner.forM say
  let c ← openConfig w settings
  let problem := "❌ Generation failed: "
  let d ← openDocument w c settings problem
  let b ← orStop problem (Builder.ofConfig c d)
  let (models, registry) := b.buildAll {}
  let models ← orStop problem models
  let path ← orStop problem (outputPath c output)
  orFail (Export.requireWritable w.files path)
  let e := Export.ofModels c.generator.providerName c.generator.openapiSchema models registry
  write path (← orStop problem (e.text w.time))
  say ("✅ Generated " ++ toString models.length ++ " models")
  say ("   Nested types: " ++ toString registry.size)
  say ("   Written to: " ++ path.toString)

/-- A text with spaces after it up to a width. -/
def column (width : Nat) (s : String) : String :=
  s ++ String.ofList (List.replicate (width - s.length) ' ')

/-- The part that a field plays in a configuration. -/
def roleOf (f : Field) : String :=
  if f.required then "required"
  else if f.readOnly then "read-only"
  else if f.serverComputed then "computed"
  else "optional"

/-- The line that shows a field. -/
def fieldLine (f : Field) : String :=
  let type := if f.attrTypeRef.isEmpty then f.resolvedType else f.attrTypeRef
  let flags := (if f.forceNew then ["force_new"] else []) ++ (if f.schemaSkip then ["skip"] else [])
  column 30 f.name.display ++ " " ++ column 28 type ++ " " ++ column 10 (roleOf f) ++ " "
    ++ " ".intercalate flags

/-- The lines that show a model. -/
def modelLines (m : ResourceModel) : List String :=
  let rule := String.ofList (List.replicate 60 '━')
  let kind := m.plugin.name ++ (if m.isDataSourceOnly then ", data source" else "")
  ["", rule, m.name ++ " (" ++ kind ++ ")", rule] ++ m.modelFields.map fieldLine ++
    if m.structNames.isEmpty then []
    else ["", "Nested types: " ++ ", ".intercalate m.structNames]

/-- Shows the fields of one resource, or else of one data source. -/
def inspect (w : Surroundings) (settings : RunSettings) (name : String) : Session Unit := do
  let c ← openConfig w settings
  let build : Builder → Result ResourceModel ←
    match c.resource? (.text name), c.dataSource? (.text name) with
    | some r, _ => pure fun b => (b.resource r {}).1
    | none, some s => pure fun b => (b.dataSource s {}).1
    | none, none => stop ("Unknown resource: " ++ name)
  let problem := "❌ "
  let d ← openDocument w c settings problem
  let b ← orStop problem (Builder.ofConfig c d)
  let m ← orStop problem (build b)
  (modelLines m).forM say

/-- Checks the configuration against the document. -/
def validateConfig (w : Surroundings) (settings : RunSettings) : Session Unit := do
  let c ← openConfig w settings
  let _ ← openDocument w c settings "❌ Invalid configuration: "
  say "✅ Configuration is valid"
  say ("   Resources: " ++ toString c.resources.length)
  say ("   Data sources: " ++ toString c.dataSources.length)

/-! ## The program -/

/-- The lines that tell how the program is used. -/
def usage : List String :=
  ["Usage: provider-modelgen [--config FILE] [-v] COMMAND",
   "",
   "Commands:",
   "  generate [-o FILE] [--no-cache]   write the models of all resources and data sources",
   "  inspect NAME [--no-cache]         show the fields of one resource or data source",
   "  validate-config [--no-cache]      check the configuration against the document"]

/-- The version of the program. -/
def versionLine : String := "provider-modelgen, version 0.1.0"

/-- What a request does. -/
def Request.session (w : Surroundings) : Request → Session Unit
  | .help => usage.forM say
  | .version => say versionLine
  | .run (.generate output) settings => generate w settings output
  | .run (.inspect name) settings => inspect w settings name
  | .run .validateConfig settings => validateConfig w settings

/-- A run of the program; arguments that make no sense end it with 2. -/
def run (w : Surroundings) (args : List String) : Result Outcome := do
  match ← Request.ofArguments? args with
  | none => .ok ⟨2, "", []⟩
  | some r => (r.session w).outcome

/-- The files that a request reads, as far as the files at hand tell. -/
def Request.reads (w : Surroundings) : Request → List Path
  | .run _ settings =>
    let path := settings.configPath
    let config := Path.ofString (Config.choosePath w.environment path)
    match (Config.load w.yaml w.files w.environment path).bind (sourceOf w · settings.useCache) with
    | .ok s => [config, if s.isRemote then cachePath s else Path.ofString s.location]
    | .error _ => [config]
  | _ => []

end ApiModels.CommandLine
