/-
ApiModels.CommandLine.Arguments — what the arguments of the program ask
for.

The arguments are switches of the program, the name of a command, and the
command's own switches and words. A switch has a name after two dashes, and
may have a letter after one; its value follows after an equals sign, in the
same argument as the letter, or in the next argument. Two dashes alone end
the switches.

Main definition: `Request.ofArguments?`, none for arguments that make no
sense. A path in the arguments must not hold the character NUL.
-/
import ApiModels.Failure

namespace ApiModels.CommandLine

/-! ## Switches -/

/-- A switch. -/
structure Switch where
  name : String
  letter : Option Char := none
  takesValue : Bool := false

/-- What was given on the command line. -/
structure Given where
  /-- Switches with their values, the last one first; a switch without a value has an empty one. -/
  switches : List (String × String) := []
  words : List String := []

namespace Given

/-- Adds a switch. -/
def add (g : Given) (s : Switch) (value : String) : Given :=
  { g with switches := (s.name, value) :: g.switches }

/-- The value of a switch; of one given several times, the last value. -/
def value? (g : Given) (name : String) : Option String := g.switches.lookup name

/-- A switch was given. -/
def has (g : Given) (name : String) : Bool := (g.value? name).isSome

/-- Of some switches, the one that was given first. -/
def firstOf? (g : Given) (names : List String) : Option String :=
  (g.switches.reverse.map (·.1)).find? names.contains

end Given

/-- A name and what follows the first equals sign, if there is one. -/
def nameAndValue (cs : List Char) : String × Option String :=
  let name := String.ofList (cs.takeWhile (· != '='))
  match cs.dropWhile (· != '=') with
  | [] => (name, none)
  | _ :: value => (name, some (String.ofList value))

/--
Letters after one dash. One that takes a value takes the rest of them as its value; if there is no
rest, that switch is handed back.
-/
def letters (known : List Switch) : List Char → Given → Option (Given × Option Switch)
  | [], g => some (g, none)
  | c :: cs, g =>
    match known.find? (fun s => s.letter == some c) with
    | none => none
    | some s =>
      if !s.takesValue then letters known cs (g.add s "")
      else if cs.isEmpty then some (g, some s)
      else some (g.add s (String.ofList cs), none)

/--
What arguments give. With `mixed` there may be switches after words; without it everything from the
first word on is words.
-/
def read (known : List Switch) (mixed : Bool) : List String → Given → Option Given
  | [], g => some g
  | a :: rest, g =>
    match a.toList with
    | ['-', '-'] => some { g with words := g.words ++ rest }
    | '-' :: '-' :: cs =>
      let (name, value) := nameAndValue cs
      match known.find? (fun s => s.name == name) with
      | none => none
      | some s =>
        match value, s.takesValue, rest with
        | none, false, rest => read known mixed rest (g.add s "")
        | some v, true, rest => read known mixed rest (g.add s v)
        | none, true, v :: rest => read known mixed rest (g.add s v)
        | _, _, _ => none
    | '-' :: c :: cs =>
      match letters known (c :: cs) g, rest with
      | some (g, none), rest => read known mixed rest g
      | some (g, some s), v :: rest => read known mixed rest (g.add s v)
      | _, _ => none
    | _ =>
      if mixed then read known mixed rest { g with words := g.words ++ [a] }
      else some { g with words := g.words ++ a :: rest }

/-! ## Requests -/

/-- What a command is to do. -/
inductive Command where
  | generate (output : Option String)
  | inspect (name : String)
  | validateConfig
  deriving DecidableEq, Repr

/-- How a command is to be run. -/
structure RunSettings where
  configPath : Option String
  useCache : Bool
  verbose : Bool
  deriving DecidableEq, Repr

/-- What the arguments ask for. -/
inductive Request where
  | help
  | version
  | run (command : Command) (settings : RunSettings)
  deriving DecidableEq, Repr

/-- Every command has this switch, and so has the program. -/
def helpSwitch : Switch := { name := "help" }

/-- The switch that asks for the version. -/
def versionSwitch : Switch := { name := "version" }

/-- The switch that names the configuration. -/
def configSwitch : Switch := { name := "config", takesValue := true }

/-- The switch that asks for every message. -/
def verboseSwitch : Switch := { name := "verbose", letter := some 'v' }

/-- The switch that turns the cache off. -/
def noCacheSwitch : Switch := { name := "no-cache" }

/-- The switches of the program. -/
def programSwitches : List Switch := [helpSwitch, versionSwitch, configSwitch, verboseSwitch]

/-- The switches of every command. -/
def commandSwitches : List Switch := [helpSwitch, noCacheSwitch]

/-- The switch that names the file to write. -/
def outputSwitch : Switch := { name := "output", letter := some 'o', takesValue := true }

/-- A path that is given can be asked for: it holds no NUL. -/
def requirePath (path : Option String) : Result Unit :=
  if (path.getD "").toList.contains '\x00' then .error .nulInPath else .ok ()

namespace Request

/-- A request for a command. `make` says what its words and switches mean. -/
def ofCommand? (program : Given) (known : List Switch) (rest : List String)
    (make : Given → Option Command) : Result (Option Request) :=
  match read known true rest {} with
  | none => .ok none
  | some g =>
    if g.has helpSwitch.name then .ok (some .help)
    else do
      requirePath (g.value? outputSwitch.name)
      .ok ((make g).map fun c =>
        .run c
          { configPath := program.value? configSwitch.name
            useCache := !g.has noCacheSwitch.name
            verbose := program.has verboseSwitch.name })

/-- What the words after the program's switches ask for. -/
def ofWords? (program : Given) : Result (Option Request) :=
  match program.words with
  | "generate" :: rest =>
    ofCommand? program (outputSwitch :: commandSwitches) rest fun g =>
      if g.words.isEmpty then some (.generate (g.value? outputSwitch.name)) else none
  | "inspect" :: rest =>
    ofCommand? program commandSwitches rest fun g =>
      match g.words with
      | [name] => some (.inspect name)
      | _ => none
  | "validate-config" :: rest =>
    ofCommand? program commandSwitches rest fun g =>
      if g.words.isEmpty then some .validateConfig else none
  | _ => .ok none

/-- What arguments ask for. Of help and version, what is asked for first counts. -/
def ofArguments? (args : List String) : Result (Option Request) :=
  match read programSwitches false args {} with
  | none => .ok none
  | some program =>
    match program.firstOf? [helpSwitch.name, versionSwitch.name] with
    | some name => .ok (some (if name == helpSwitch.name then .help else .version))
    | none => do
      requirePath (program.value? configSwitch.name)
      ofWords? program

end Request

end ApiModels.CommandLine
