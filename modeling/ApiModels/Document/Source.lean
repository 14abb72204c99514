/-
ApiModels.Document.Source — where documents are loaded from.

A document is a file or stands under an address. What is loaded from an
address is kept in a cache, as JSON in a file named after the address, and
is taken from there for an hour. JSON is read here; all other texts are read by
the YAML parser that a source comes with.

Main definition: `Source.load`, the result of a load with what it leaves in
the cache. The cache is written before it is known whether the text was a
document.
-/
import ApiModels.Document.Operations
import ApiModels.Digest.Md5
import ApiModels.Json.Parser
import ApiModels.Json.Printer
import ApiModels.Path
import ApiModels.Text.Case
import ApiModels.Yaml.Problem

namespace ApiModels

/-- Where a document is, how it is asked for, and what reads it if it is no JSON. -/
structure Source (τ : Type := String) where
  location : String
  yaml : Yaml.Parser τ
  /-- A token that is sent with requests. -/
  token : Option String := none
  useCache : Bool := true

/-- What a host answers to a request. -/
inductive Reply where
  /-- No answer, or a status that means failure. -/
  | failed (reason : String)
  | page (contentType text : String)

/-- A document kept from an earlier load. -/
structure CacheEntry where
  text : String
  /-- Nanoseconds since it was written. -/
  age : Int := 0
  deriving DecidableEq

/-- The place where the document of one source is kept. -/
structure Cache where
  entry : Option CacheEntry := none
  writable : Bool := true

/-- What a load leads to. -/
structure Loading (τ : Type := String) where
  result : Result (Members τ)
  /-- The host was asked. -/
  fetched : Bool
  /-- The cache after the load. -/
  cache : Cache

variable {τ : Type}

namespace Cache

/-- A document is taken from the cache up to so many nanoseconds after it was written: an hour. -/
def lifetime : Int := 3600 * 1000000000

variable [DecidableEq τ] [Spelled τ]

/-- A JSON text as a value. Only a number that is too long stops a run; other faults give none. -/
def read (text : String) : Result (Option (Value τ)) :=
  match Json.parse text with
  | .ok v => .ok (some v)
  | .error .badSyntax => .ok none
  | .error (.tooManyDigits n) => .error (.tooManyDigits (some n))

/-- The value that the cache holds, if it is new enough and readable; null counts as nothing. -/
def fresh (c : Cache) : Result (Option (Value τ)) :=
  match c.entry with
  | none => .ok none
  | some e =>
    if e.age ≤ lifetime then
      (read e.text).map fun found =>
        match found with
        | some .null => none
        | found => found
    else .ok none

/-- Keeps a value; of one that has no JSON form, the part before what has none is kept. -/
def save (c : Cache) (v : Value τ) : Result Unit × Cache :=
  if c.writable then
    match Json.print .line v with
    | .ok text => (.ok (), { c with entry := some { text } })
    | .error stop => (.error stop.cause, { c with entry := some { text := stop.written } })
  else (.ok (), c)

end Cache

namespace Source

/-- The document is asked for at an address. -/
def isRemote (s : Source τ) : Bool := isAddress s.location

/-- The kinds of text that are asked for. -/
def accepted : String := "application/json, application/yaml"

/-- The token as it is sent; an empty one is not. -/
def authorization (s : Source τ) : Option String :=
  match s.token with
  | some t => if t.isEmpty then none else some ("Bearer " ++ t)
  | none => none

/-- The name of the file in which the document is kept. -/
def cacheName (s : Source τ) : String :=
  "schema_" ++ String.ofList ((Md5.hexDigest s.location).toList.take 8) ++ ".json"

/-- A load problem of this source. -/
def fail {α : Type} (s : Source τ) (problem : LoadProblem) : Result α :=
  .error (.load s.location problem)

variable [DecidableEq τ] [Spelled τ]

/-- The value that a text states, in JSON or in YAML. -/
def parse (s : Source τ) (isJson : Bool) (text : String) : Result (Value τ) :=
  if isJson then
    match Json.parse text with
    | .ok v => .ok v
    | .error .badSyntax => s.fail .invalidSyntax
    | .error (.tooManyDigits n) => .error (.tooManyDigits (some n))
  else
    match s.yaml.parse text with
    | .ok v => .ok v
    | .error .unreadable => s.fail .invalidSyntax
    | .error (.failure e) => .error e

/-- The value that a file states; JSON if the file's name says so. -/
def readFile (s : Source τ) (files : Files) : Result (Value τ) :=
  let file := Path.ofString s.location
  match files.lines? file with
  | none => s.fail .notFound
  | some text => s.parse (Text.lower file.suffix == ".json") text

/-- A text is JSON if its content type says so. -/
def isJsonType (contentType : String) : Bool :=
  Text.isPartOf "json".toList contentType.toList

/-- The value that the host's answer states, which is then kept. -/
def fetch (s : Source τ) (cache : Cache) (reply : Reply) :
    Result (Value τ) × Cache :=
  match reply with
  | .failed reason => (s.fail (.unreachable reason), cache)
  | .page contentType text =>
    match s.parse (isJsonType contentType) text with
    | .error e => (.error e, cache)
    | .ok v =>
      if s.useCache then
        let (saved, cache) := cache.save v
        (saved.map fun _ => v, cache)
      else (.ok v, cache)

/--
A document is an object with paths. What it says of itself must be an object whose title, if any,
can be told.
-/
def document (s : Source τ) (v : Value τ) : Result (Members τ) :=
  match v.members? with
  | some ms =>
    if ms.has (Spelled.text "paths") then do
      let info ← (ms.getOr (Spelled.text "info") (.object [])).members
      if (info.getOr (Spelled.text "title") (.text (Spelled.text ""))).canBeTold then .ok ms
      else .error (.tooManyDigits none)
    else s.fail .notADocument
  | none => s.fail .notADocument

/--
Loads a document from a file, from the cache, or from the host. A load that is forced does not look
into the cache.
-/
def load (s : Source τ) (files : Files) (cache : Cache) (force : Bool) (reply : Reply) :
    Loading τ :=
  if s.isRemote then
    match if s.useCache && !force then cache.fresh else .ok none with
    | .error e => ⟨.error e, false, cache⟩
    | .ok (some v) => ⟨s.document v, false, cache⟩
    | .ok none =>
      let (found, cache) := s.fetch cache reply
      ⟨found.bind s.document, true, cache⟩
  else ⟨(s.readFile files).bind s.document, false, cache⟩

end Source

end ApiModels
