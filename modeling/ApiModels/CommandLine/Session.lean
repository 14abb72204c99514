/-
ApiModels.CommandLine.Session — a run of the program.

A run prints lines and writes files, and may end early: with a line that
says what is wrong, or without one where something happened that no line is
foreseen for. What was printed and written before an early end stays.

Each line is printed with the line break after it as one text, of which what
would steer a terminal is left out.
-/
import ApiModels.CommandLine.Plain
import ApiModels.Config.File
import ApiModels.Document.Source

namespace ApiModels.CommandLine

/-- What a run finds around it. -/
structure Surroundings where
  yaml : Yaml.Parser
  files : Files
  environment : Environment
  /-- What hosts answer, by address. -/
  reply : String → Reply
  /-- Nanoseconds since the cached document was written. -/
  cacheAge : Int := 0
  /-- The time of the run. -/
  time : String

/-- What a run has printed and written. -/
structure Log where
  text : String := ""
  written : Files := []

/-- Why a run ends early. -/
inductive Ending where
  | reported (line : String)
  | unreported (cause : Failure)

/-- A run, or a part of one. -/
abbrev Session := ExceptT Ending (StateM Log)

/-- How a run ended, with what it printed and wrote. -/
structure Outcome where
  exitCode : Nat
  text : String
  written : Files

/-- The log with a line more. -/
def Log.print (log : Log) (line : String) : Result Log := do
  .ok { log with text := log.text ++ (← printed (line ++ "\n")) }

namespace Session

/-- Prints a line, which ends the run if that cannot be done. -/
def say (line : String) : Session Unit := do
  match (← get).print line with
  | .ok log => set log
  | .error e => throw (.unreported e)

/-- Ends the run with a line. -/
def stop {α : Type} (line : String) : Session α := throw (.reported line)

/-- Goes on with a result. A failure that can be told ends the run with a line that starts so. -/
def orStop {α : Type} (start : String) (r : Result α) : Session α :=
  match r with
  | .ok a => pure a
  | .error e => throw (if e.isTold then .reported (start ++ e.message) else .unreported e)

/-- Goes on with a result. A failure ends the run without a line. -/
def orFail {α : Type} (r : Result α) : Session α :=
  match r with
  | .ok a => pure a
  | .error e => throw (.unreported e)

/-- Writes a file. -/
def write (path : Path) (text : String) : Session Unit :=
  modify fun log => { log with written := log.written.write path text }

/-- The outcome of a run from its start: 0 if it ended by itself, 1 if it ended with a report. -/
def outcome (s : Session Unit) : Result Outcome :=
  match s.run {} with
  | (.ok (), log) => .ok ⟨0, log.text, log.written⟩
  | (.error (.reported line), log) => do .ok ⟨1, (← log.print line).text, log.written⟩
  | (.error (.unreported e), _) => .error e

end Session

end ApiModels.CommandLine
