/-
ApiModels.Main — the program on a real machine.

It reads the files that the request needs, runs the request, writes what
the run wrote, and prints what it printed. It has no network.
-/
import ApiModels.CommandLine.Run
import ApiModels.Yaml.Document
import Std.Time.Zoned

namespace ApiModels.Program

open CommandLine

/-- The text of a file, if it can be read. -/
def readFile? (path : Path) : IO (Option String) := do
  try return some (← IO.FS.readFile path.toString)
  catch _ => return none

/-- The files at some paths that can be read. -/
def readFiles (paths : List Path) : IO Files := do
  let found ← paths.mapM fun path => do
    return (← readFile? path).map fun text => (path, text)
  return found.filterMap id

/-- Nanoseconds since a file was written; none have passed for a file that is not there. -/
def ageOf (path : Path) : IO Int := do
  try
    let written := (← (← IO.FS.realPath path.toString).metadata).modified
    let now ← Std.Time.Timestamp.now
    return now.toNanosecondsSinceUnixEpoch.val - (written.sec * 1000000000 + written.nsec.toNat)
  catch _ => return 0

/-- The time on the clock, to the microsecond. -/
def timeNow : IO String := do
  let now ← Std.Time.PlainDateTime.now
  let clock : Clock :=
    { hour := now.time.hour.val.toNat, minute := now.time.minute.val.toNat
      second := now.time.second.val.toNat
      microsecond := now.time.nanosecond.val.toNat / 1000, offsetSeconds := none }
  let date : Date :=
    { year := now.date.year.toInt.toNat, month := now.date.month.val.toNat
      day := now.date.day.val.toNat, clock := some clock }
  return date.display "T"

/-- Writes a file, and makes its directory if it is missing. -/
def writeFile (path : Path) (text : String) : IO Unit := do
  IO.FS.createDirAll path.parent.toString
  IO.FS.writeFile path.toString text

/-- What the environment says. -/
def readEnvironment : IO Environment := do
  return { configPath := ← IO.getEnv "MODELGEN_CONFIG"
           outputDir := ← IO.getEnv "MODELGEN_OUTPUT_DIR"
           apiToken := ← IO.getEnv "MODELGEN_API_TOKEN"
           logLevel := ← IO.getEnv "MODELGEN_LOG_LEVEL" }

/-- Runs the program with its arguments. -/
def execute (args : List String) : IO UInt32 := do
  let bare : Surroundings :=
    { yaml := Yaml.parser, files := [], environment := ← readEnvironment
      reply := fun _ => .failed "no network", time := ← timeNow }
  let request := match Request.ofArguments? args with
    | .ok (some r) => r
    | _ => .help
  let withConfig := { bare with files := ← readFiles (request.reads bare) }
  let paths := request.reads withConfig
  -- The last path is that of the document, or of the file in which it is kept.
  let age ← match paths.getLast? with
    | some path => ageOf path
    | none => pure 0
  match run { withConfig with files := ← readFiles paths, cacheAge := age } args with
  | .ok outcome =>
    outcome.written.forM fun file => writeFile file.1 file.2
    IO.print outcome.text
    return UInt32.ofNat outcome.exitCode
  | .error e =>
    IO.eprintln e.message
    return 1

end ApiModels.Program

/-- Runs the program with its arguments. -/
def main (args : List String) : IO UInt32 := ApiModels.Program.execute args
