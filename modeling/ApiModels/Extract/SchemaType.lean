/-
ApiModels.Extract.SchemaType — the type of a schema node, and its
alternatives.

A node declares its type, or it is composed of alternatives and takes the
type of the first one, or it has properties and so is an object. The first
alternatives are followed for a number of levels that grows with the depth
to which fields are extracted.
-/
import ApiModels.Document.Bodies
import ApiModels.Policy
import ApiModels.Field.Basic

namespace ApiModels

/-- How fields are extracted from a document. -/
structure Extractor where
  document : Document
  policy : Policy := {}
  /-- Fields nested deeper than this are not extracted. -/
  maxDepth : Int := 3
  /-- The name in lower case that a root field may be left out by. -/
  identifier : Scalar := .text "uuid"

namespace Schema

/-- The members by which a node is composed, in the order in which they are looked at. -/
def compositions : List String := ["oneOf", "anyOf", "allOf"]

/-- The type that a node declares itself: a list of types stands for its first but `null`. -/
def declaredType? (schema : Members) : Option SemanticType :=
  let declared : Value := match (schema.get "type").bare with
    | .list types => (types.find? (fun t : Value => t.text? != some "null")).getD .null
    | v => v
  if declared.given then some (.ofName (declared.text?.getD "")) else none

/-- The alternatives that a node is composed of, by the first member that states any. -/
def alternatives? (schema : Members) : Option Value :=
  compositions.findSome? fun member =>
    if (schema.get member).given then some (schema.get member) else none

/-- What the first of some alternatives leads to. -/
def firstAlternative (d : Document) (alternatives : Value) : Result (Option Members) := do
  .ok (← d.resolve (← alternatives.first)).node

/-- The type of a node, by at most so many levels of alternatives. -/
def typeWithin (d : Document) : (levels : Nat) → Members → Result SemanticType
  | 0, _ => .ok .unknown
  | levels + 1, schema =>
    match declaredType? schema with
    | some t => .ok t
    | none =>
      match alternatives? schema with
      | some alternatives => do
        match ← firstAlternative d alternatives with
        | some alternative => typeWithin d levels alternative
        | none => .ok .unknown
      | none => .ok (if (schema.get "properties").given then .object else .unknown)

/-- The texts that a node enumerates, itself or in its first alternative. -/
def textEnum (d : Document) (schema : Members) : Result (List String) := do
  let values ← match schema.get "enum" with
    | .null =>
      match alternatives? schema with
      | some alternatives => do
        match ← firstAlternative d alternatives with
        | some alternative => .ok (alternative.get "enum")
        | none => .ok .null
      | none => .ok .null
    | values => .ok values
  .ok ((← values.itemsOrNone).filterMap Value.text?)

end Schema

namespace Extractor

/-- The type of a schema node. -/
def schemaType (x : Extractor) (schema : Members) : Result SemanticType :=
  Schema.typeWithin x.document (x.maxDepth + 2).toNat schema

end Extractor

end ApiModels
