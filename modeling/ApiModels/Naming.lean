/-
ApiModels.Naming — names as people read them, and descriptions.

Names in documents are lower-case words joined by underscores.
`Name.spaced` puts spaces in their place, `Name.titled` joins the words
with capitals, `Name.split` separates a resource's service from its own
name.

A description is kept on one line and can stand inside quotation marks:
`Description.escape` puts a backslash before every quotation mark and
backslash and leaves single spaces between words. A field without a
description of at least two characters gets one from its name
(`Description.ofField`).
-/
import ApiModels.Text.Blank
import ApiModels.Text.Case
import ApiModels.Text.Split

namespace ApiModels

namespace Name

/-- The words of a name with spaces between them. -/
def spacedChars (cs : List Char) : List Char :=
  Text.trim (cs.map (fun c => if c == '_' then ' ' else c))

/-- The words of a name with spaces between them. -/
def spaced (name : String) : String :=
  String.ofList (spacedChars name.toList)

/-- The text with its first character in upper case. -/
def capitalized : List Char → List Char
  | [] => []
  | c :: cs => Text.upperChar c ++ cs

/-- The words of a name joined, each with a capital. -/
def titled (name : String) : String :=
  String.ofList ((Text.splitOn '_' name.toList).flatMap capitalized)

/-- The service for names that state none. -/
def defaultService : String := "core"

/-- What stands before the first underscore and what stands after it. -/
def splitFirst (cs : List Char) : Option (List Char × List Char) :=
  match cs.dropWhile (· != '_') with
  | [] => none
  | _ :: after => some (cs.takeWhile (· != '_'), after)

/-- The service of a resource name, and the name within the service. -/
def split (name : String) : String × String :=
  match splitFirst name.toList with
  | some (service, c :: cs) => (String.ofList service, String.ofList (c :: cs))
  | _ => (defaultService, name)

end Name

namespace Description

/-- Quotation marks and backslashes get a backslash, carriage returns go. -/
def escapeChar (c : Char) : List Char :=
  if c == '\\' then ['\\', '\\']
  else if c == '"' then ['\\', '"']
  else if c == '\r' then []
  else [c]

/-- The description escaped, with single spaces between its words. -/
def escape (s : String) : String :=
  String.ofList (Text.unwords (Text.words (s.toList.flatMap escapeChar)))

/-- A text counts as a description from this many characters on, blanks at its ends aside. -/
def leastLength : Nat := 2

/-- The text without a suffix that it ends in. -/
def without? (suffix : String) (cs : List Char) : Option (List Char) :=
  if suffix.toList.isSuffixOf cs then some (cs.take (cs.length - suffix.length)) else none

/-- What a name says about its field, before escaping. -/
def fromName (name resource : String) : List Char :=
  let cs := name.toList
  match without? "_uuid" cs with
  | some stem => "UUID of the ".toList ++ Name.spacedChars stem
  | none =>
  match without? "_name" cs with
  | some stem => "Name of the ".toList ++ Name.spacedChars stem
  | none =>
  match without? "_id" cs with
  | some stem => "ID of the ".toList ++ Name.spacedChars stem
  | none =>
  if name == "name" then ("Name of the " ++ resource).toList
  else if name == "description" then ("Description of the " ++ resource).toList
  else if name == "uuid" then ("UUID of the " ++ resource).toList
  else if "is_".toList.isPrefixOf cs then "Is ".toList ++ Name.spacedChars (cs.drop 3)
  else Name.capitalized (Name.spacedChars cs)

/-- A description says enough to be kept. -/
def isEnough (description : String) : Bool :=
  leastLength ≤ (Text.trim description.toList).length

/-- The description of a field: its own if it has one, else one made from its name. -/
def ofField (name resource current : String) : String :=
  if isEnough current then escape current
  else escape (String.ofList (fromName name resource))

end Description

end ApiModels
