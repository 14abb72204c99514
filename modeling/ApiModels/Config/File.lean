/-
ApiModels.Config.File — configurations in files.

A file holds a mapping in YAML, or nothing. The environment names the file
where the caller does not, and may set where the output goes, the token for
remote documents, and the log level.
-/
import ApiModels.Config.Check
import ApiModels.Path
import ApiModels.Text.Case
import ApiModels.Yaml.Problem

namespace ApiModels

/-- What the environment says of a configuration. -/
structure Environment where
  configPath : Option String := none
  outputDir : Option String := none
  apiToken : Option String := none
  logLevel : Option String := none

namespace Config

/-- The file that is read when none is named. -/
def defaultPath : String := "config.yaml"

/-- The configuration in a file. Its base directory is the directory of the file. -/
def read (yaml : Yaml.Parser) (files : Files) (path : String) : Result Config :=
  let file := Path.ofString path
  match files.lines? file with
  | none => (ConfigProblem.fileNotFound path).fail
  | some text =>
    match yaml.parsePieces text with
    | .error .unreadable => (ConfigProblem.invalidFile path).fail
    | .error (.failure e) => .error e
    | .ok v =>
      match v.bare with
      | .null | .object _ => do
        let c ← ofValue v
        .ok { c with baseDir := file.parent.toString }
      | _ => (ConfigProblem.notAMapping path).fail

/-- The path that the caller gives, or else the environment, or else the default. -/
def choosePath (env : Environment) (path : Option String) : String :=
  match path with
  | some p => if p.isEmpty then env.configPath.getD defaultPath else p
  | none => env.configPath.getD defaultPath

/-- A configuration with what the environment sets. -/
def inEnvironment (env : Environment) (c : Config) : Config :=
  let outputDir := match env.outputDir with
    | some d => if d.isEmpty then c.generator.outputDir else .text d
    | none => c.generator.outputDir
  { c with
    generator := { c.generator with outputDir }
    apiToken := env.apiToken.getD ""
    logLevel := Text.upper (env.logLevel.getD "INFO") }

/-- The configuration that the caller or the environment names. -/
def load (yaml : Yaml.Parser) (files : Files) (env : Environment) (path : Option String) :
    Result Config := do
  .ok ((← read yaml files (choosePath env path)).inEnvironment env)

end Config

end ApiModels
