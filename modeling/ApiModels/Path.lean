/-
ApiModels.Path — paths of files, and files known by their paths.

A path is its steps from the root or from the working directory. Empty
steps and single dots say nothing and vanish; a double dot stays, since
what it leads to depends on the directories that exist.
-/
import ApiModels.Text.Split
import ApiModels.Text.LineBreak

namespace ApiModels

/-- A path: what stands before its steps, and the steps. -/
structure Path where
  /-- Empty for a relative path, one slash or two for an absolute one. -/
  root : String
  steps : List String
  deriving DecidableEq, Repr

/-- A text is the address of something remote, and not a path. -/
def isAddress (s : String) : Bool :=
  "http://".toList.isPrefixOf s.toList || "https://".toList.isPrefixOf s.toList

namespace Path

/-- The slashes that make a path absolute: two stay two, any other number is one. -/
def rootOf (cs : List Char) : String :=
  match cs.takeWhile (· == '/') with
  | [] => ""
  | [_, _] => "//"
  | _ => "/"

/-- The path that a text denotes. -/
def ofString (s : String) : Path where
  root := rootOf s.toList
  steps := ((Text.splitOn '/' s.toList).map String.ofList).filter (fun p => p != "" && p != ".")

/-- The text of a path; an empty relative path is a dot. -/
def toString (p : Path) : String :=
  if p.root.isEmpty && p.steps.isEmpty then "."
  else p.root ++ "/".intercalate p.steps

/-- A path starts at the root. -/
def isAbsolute (p : Path) : Bool := !p.root.isEmpty

/-- The directory of a path; a path without steps is its own. -/
def parent (p : Path) : Path := { p with steps := p.steps.dropLast }

/-- A path taken from a directory. -/
def join (directory p : Path) : Path :=
  if p.isAbsolute then p else { directory with steps := directory.steps ++ p.steps }

/-- The last step, or empty. -/
def name (p : Path) : String := (p.steps.getLast?).getD ""

/-- A path holds the character NUL, which no file's path does. -/
def holdsNul (p : Path) : Bool := p.steps.any (fun step => step.toList.contains '\x00')

/-- The ending of a name from its last dot on; a dot at either end of the name starts none. -/
def suffix (p : Path) : String :=
  let cs := p.name.toList
  let ending := Text.afterLast '.' cs
  let stem := cs.take (cs.length - ending.length - 1)
  if cs.contains '.' && !ending.isEmpty && !stem.isEmpty then
    String.ofList ('.' :: ending)
  else ""

end Path

/-! ## Files -/

/-- Takes back a step for every double dot; none if that leads out of the working directory. -/
def settle : List String → List String → Option (List String)
  | done, [] => some done.reverse
  | done, step :: rest =>
    if step == ".." then
      match done with
      | [] => none
      | _ :: done => settle done rest
    else settle (step :: done) rest

/-- Files by their paths. -/
abbrev Files := List (Path × String)

namespace Files

/-- Files given by the texts of their paths. -/
def ofPaths (files : List (String × String)) : Files :=
  files.map (fun f => (Path.ofString f.1, f.2))

/-- A directory exists if it is the working directory or holds a file somewhere below. -/
def isDirectory (files : Files) (steps : List String) : Bool :=
  steps.isEmpty || files.any (fun f =>
    !f.1.isAbsolute && steps.isPrefixOf f.1.steps && steps.length < f.1.steps.length)

/-- The steps from the working directory that remain when double dots are followed. -/
def locate (files : Files) (here : List String) : List String → Option (List String)
  | [] => some here
  | step :: rest =>
    if !files.isDirectory here then none
    else if step == ".." then
      if here.isEmpty then none else locate files here.dropLast rest
    else locate files (here ++ [step]) rest

/-- The file with a path, as the path is written. -/
def named? (files : Files) (p : Path) : Option String :=
  (files.find? (fun f => f.1 == p)).map (·.2)

/-- The text of the file to which a path leads. -/
def read? (files : Files) (p : Path) : Option String :=
  match files.named? p with
  | some text => some text
  | none =>
    if p.isAbsolute then none
    else (locate files [] p.steps).bind fun steps => files.named? { p with steps := steps }

/-- The text of a file, its lines ended in one way. -/
def lines? (files : Files) (p : Path) : Option String :=
  (files.read? p).map fun text => String.ofList (Text.unifyBreaks text.toList)

/--
A file can be written, its directories made where they are missing: the path is not that of a
directory, and no file is in the way. What lies outside the working directory is not known.
-/
def accepts (files : Files) (p : Path) : Bool :=
  if p.steps.isEmpty || p.name == ".." then false
  else if p.isAbsolute then true
  else
    match settle [] p.steps with
    | none => true
    | some steps =>
      !files.isDirectory steps && !files.any (fun f =>
        !f.1.isAbsolute && f.1.steps.isPrefixOf steps && f.1.steps.length < steps.length)

/-- Writes a file, which need not exist. -/
def write (files : Files) (p : Path) (text : String) : Files :=
  files.filter (fun f => f.1 != p) ++ [(p, text)]

end Files

end ApiModels
