/-
ApiModels.Failure — why a run stops, and what it says.

Causes are constructors; `Failure.message` alone holds their wording.
`Failure.isModelError` tells the failures that belong to one resource,
which a run reports under the resource's name, from those that stop it
as they are.
-/
import ApiModels.Value.Display
import ApiModels.Number.Literal

namespace ApiModels

/-- What is wrong with a configuration. -/
inductive ConfigProblem where
  | fileNotFound (path : String)
  | invalidFile (path : String)
  | notAMapping (path : String)
  | schemaRequired
  | providerRequired
  | depthTooSmall (depth : Int)
  | resourceUnnamed
  | resourceWithoutBase (resource : Value)
  | resourceRepeated (resource : Value)
  | unknownPlugin (resource plugin : Value)
  | offeringTypeRequired (resource : Value)
  | linkOperationRequired (resource : Value)
  | dataSourceUnnamed
  | dataSourceWithoutBase (dataSource : Value)
  | dataSourceRepeated (dataSource : Value)
  | resourceOperationMissing (resource operation : Value) (role : String)
  | dataSourceOperationMissing (dataSource operation : Value) (role : String)
  deriving Repr

/-- Why a document could not be loaded. -/
inductive LoadProblem where
  | notFound
  | unreachable (reason : String)
  | invalidSyntax
  | notADocument
  deriving Repr

/-- A part that a document lacks. -/
inductive MissingPart where
  | schema (name : Value)
  | operation (id : Value)
  | requestBody (id : Value)
  | requestContent (id : Value)
  | successResponse (id : Value)
  deriving Repr

/-- The part of a date or time that lies outside its range. -/
inductive DateProblem where
  | year
  | month
  | day
  | hour
  | minute
  | second
  /-- The distance from universal time is a day or more. -/
  | offset (seconds : Int)
  deriving Repr, DecidableEq

/-- Why a run stops. -/
inductive Failure where
  /-- A value has a shape that cannot be used where it stands. -/
  | wrongShape
  /-- A list given as an object has an element that is not a pair. -/
  | notAPair (position length : Nat)
  /-- A text, or bytes, does not denote a whole number in a base. -/
  | notAWholeNumber (base : Nat) (literal : Scalar)
  /-- A text does not denote a double. -/
  | notADouble (text : String)
  /-- A whole number has too many digits, so many if they were counted. -/
  | tooManyDigits (count : Option Nat)
  | infiniteWholeNumber
  | undefinedWholeNumber
  | notADate (year : Nat) (problem : DateProblem)
  /-- A whole number lies beyond the greatest double. -/
  | beyondDoubles
  /-- A number is not the code of a character. -/
  | notACharacter (code : Nat)
  | unknownPlugin (plugin : Value)
  /-- A text that is no level is taken for one. -/
  | unknownLevel (text : String)
  | config (problem : ConfigProblem)
  | load (source : String) (problem : LoadProblem)
  | missing (part : MissingPart)
  /-- A file cannot be written at a path. -/
  | unwritable (path : String)
  /-- A path holds the character NUL. -/
  | nulInPath
  /-- A list or an object that is to be written holds itself. -/
  | circular
  /-- The model of one resource or data source could not be built. -/
  | generation (resource : Value) (cause : Failure)
  deriving Repr

/-- Results that may fail. -/
abbrev Result := Except Failure

/-- Details after a message, as the members of an object. -/
def withDetails (message : String) (details : Members) : String :=
  message ++ " - Details: " ++ (Value.object details).shown

/-- A failure, unless it would show a whole number that is too long to be written. -/
def Failure.showing {α : Type} (shown : List Value) (e : Failure) : Result α :=
  .error (if shown.all Value.canBeTold then e else .tooManyDigits none)

namespace ConfigProblem

/-- The values that a configuration problem shows. -/
def shown : ConfigProblem → List Value
  | .depthTooSmall depth => [.int depth]
  | .resourceWithoutBase r | .resourceRepeated r | .offeringTypeRequired r
  | .linkOperationRequired r => [r]
  | .unknownPlugin r plugin => [r, plugin]
  | .dataSourceWithoutBase d | .dataSourceRepeated d => [d]
  | .resourceOperationMissing r operation _ => [r, operation]
  | .dataSourceOperationMissing d operation _ => [d, operation]
  | .fileNotFound _ | .invalidFile _ | .notAMapping _ | .schemaRequired | .providerRequired
  | .resourceUnnamed | .dataSourceUnnamed => []

/-- A configuration problem as a failure. -/
def fail {α : Type} (problem : ConfigProblem) : Result α :=
  Failure.showing problem.shown (.config problem)

/-- The plugins that a resource may name. -/
def plugins : List String := ["standard", "order", "link"]

/-- The wording of a configuration problem. -/
def message : ConfigProblem → String
  | .fileNotFound path => "Config file not found: " ++ path
  | .invalidFile path => "Invalid YAML in " ++ path
  | .notAMapping path => "Config file " ++ path ++ " must contain a mapping"
  | .schemaRequired => "openapi_schema is required"
  | .providerRequired => "provider_name is required"
  | .depthTooSmall depth => "max_depth must be at least 1, got " ++ toString depth
  | .resourceUnnamed => "resource name cannot be empty"
  | .resourceWithoutBase r => "resource " ++ r.display ++ ": base_operation_id cannot be empty"
  | .resourceRepeated r => "duplicate resource name: " ++ r.display
  | .unknownPlugin r plugin =>
    withDetails ("resource " ++ r.display ++ ": unknown plugin " ++ plugin.display)
      [(.text "allowed", .list (plugins.map .text))]
  | .offeringTypeRequired r =>
    "resource " ++ r.display ++ ": offering_type is required for order resources"
  | .linkOperationRequired r =>
    "resource " ++ r.display ++ ": link_op is required for link resources"
  | .dataSourceUnnamed => "data source name cannot be empty"
  | .dataSourceWithoutBase d =>
    "data source " ++ d.display ++ ": base_operation_id cannot be empty"
  | .dataSourceRepeated d => "duplicate data source name: " ++ d.display
  | .resourceOperationMissing r operation role =>
    withDetails ("resource " ++ r.display ++ ": operation not found: " ++ operation.display)
      [(.text "role", .text role)]
  | .dataSourceOperationMissing d operation role =>
    withDetails ("data source " ++ d.display ++ ": operation not found: " ++ operation.display)
      [(.text "role", .text role)]

end ConfigProblem

/-- The wording of a load problem. -/
def LoadProblem.message (source : String) : LoadProblem → String
  | .notFound => "OpenAPI document not found: " ++ source
  | .unreachable reason =>
    withDetails ("Could not load OpenAPI document: " ++ source) [(.text "error", .text reason)]
  | .invalidSyntax => "Invalid document syntax in " ++ source
  | .notADocument => "Not an OpenAPI document: " ++ source

namespace MissingPart

/-- The value that names what is missing. -/
def named : MissingPart → Value
  | .schema v | .operation v | .requestBody v | .requestContent v | .successResponse v => v

/-- A missing part as a failure. -/
def fail {α : Type} (part : MissingPart) : Result α :=
  Failure.showing [part.named] (.missing part)

/-- The wording of a missing part. -/
def message : MissingPart → String
  | .schema name => "Schema not found: " ++ name.display
  | .operation id => "Operation not found: " ++ id.display
  | .requestBody id => "Operation " ++ id.display ++ " has no request body"
  | .requestContent id => "Operation " ++ id.display ++ " has no application/json request body"
  | .successResponse id =>
    "Operation " ++ id.display ++ " has no success response with application/json content"

end MissingPart

/-- The wording of a date problem. -/
def DateProblem.message (year : Nat) : DateProblem → String
  | .year => "year " ++ toString year ++ " is out of range"
  | .month => "month must be in 1..12"
  | .day => "day is out of range for month"
  | .hour => "hour must be in 0..23"
  | .minute => "minute must be in 0..59"
  | .second => "second must be in 0..59"
  | .offset seconds =>
    "offset must be a timedelta strictly between -timedelta(hours=24) and timedelta(hours=24), not "
      ++ constructedSpan seconds ++ "."

namespace Failure

/-- The least number that is beyond those a machine counts with. -/
def machineBound : Nat := 0x80000000

/-- A literal that is no whole number is shown up to so many characters. -/
def greatestExcerpt : Nat := 200

/-- The wording of a failure; a wrong shape has none. -/
def message : Failure → String
  | .wrongShape => ""
  | .notAPair position length =>
    "dictionary update sequence element #" ++ toString position ++ " has length "
      ++ toString length ++ "; 2 is required"
  | .notAWholeNumber base literal =>
    "invalid literal for int() with base " ++ toString base ++ ": "
      ++ String.ofList (literal.shown.toList.take greatestExcerpt)
  | .notADouble text => "could not convert string to float: " ++ Text.quoted text
  | .tooManyDigits count =>
    "Exceeds the limit (" ++ toString Number.greatestLength
      ++ " digits) for integer string conversion"
      ++ (match count with
        | some n => ": value has " ++ toString n ++ " digits"
        | none => "")
      ++ "; use sys.set_int_max_str_digits() to increase the limit"
  | .infiniteWholeNumber => "cannot convert float infinity to integer"
  | .undefinedWholeNumber => "cannot convert float NaN to integer"
  | .notADate year problem => problem.message year
  | .beyondDoubles => "int too large to convert to float"
  | .notACharacter code =>
    if code < machineBound then "chr() arg not in range(0x110000)"
    else "Python int too large to convert to C int"
  | .unknownPlugin plugin => "Unknown plugin: " ++ plugin.display
  | .unknownLevel text => "Unknown level: " ++ Text.quoted text
  | .config problem => problem.message
  | .load source problem => problem.message source
  | .missing part => part.message
  | .unwritable path => "Cannot write file: " ++ path
  | .nulInPath => "embedded null byte"
  | .circular => "Circular reference detected"
  | .generation resource cause =>
    "Failed to generate resource " ++ resource.display ++ ": " ++ cause.message

/-- The failures that a run reports under the name of the resource it was building. -/
def isModelError : Failure → Bool
  | .wrongShape | .infiniteWholeNumber | .beyondDoubles | .unwritable _ => false
  | .notACharacter code => code < machineBound
  | _ => true

/-- The failures that can be told in one line; any other is a fault of the input's shape. -/
def isTold : Failure → Bool
  | .config _ | .load .. | .missing _ | .generation .. => true
  | _ => false

end Failure

end ApiModels
