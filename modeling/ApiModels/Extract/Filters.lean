/-
ApiModels.Extract.Filters — the query parameters that filter a list.

A filter is a scalar query parameter of a list operation; parameters for
paging, ordering and the choice of fields are no filters.
-/
import ApiModels.Extract.Walk

namespace ApiModels

/-- A query parameter that filters a list. -/
structure Filter where
  name : Scalar
  type : String
  description : String
  enum : List String
  deriving Repr

namespace Filter

/-- Query parameters that do not filter. -/
def ignored : List String := ["page", "page_size", "o", "field"]

/-- The filter that a parameter of an operation is, if it is one. Where it is none is told. -/
def ofParameter (x : Extractor) (id : Value) (param : Members) : Result (Option Filter) := do
  if (param.get "in").text? != some "query" then .ok none
  else
    let name := param.getOr "name" (.text "")
    if !name.given then .ok none
    else
      let name ← name.key
      if ignored.any (fun s => name.same (.text s)) then .ok none
      else
        match (← x.document.resolve (param.get "schema")).node with
        | none => .ok none
        | some schema =>
          match ← x.schemaType schema with
          | .array | .object => do
            let _ ← Value.toldEach [.scalar name, id]
            .ok none
          | t =>
            let description ← Schema.textOrNone (param.get "description")
            let values ← Value.toldEach (← (schema.get "enum").itemsOrNone)
            .ok (some
              { name := name
                type := (AttrKind.ofType t).validator
                description := Description.escape description
                enum := values })

/-- The filters among the parameters of an operation. -/
def ofParameters (x : Extractor) (id : Value) : List Members → Result (List Filter)
  | [] => .ok []
  | param :: rest => do
    let first ← ofParameter x id param
    let others ← ofParameters x id rest
    .ok (first.toList ++ others)

/-- The filter with a description that names its resource. -/
def describe (resource : String) (f : Filter) : Result Filter := do
  if Description.isEnough f.description then
    .ok { f with description := Description.escape f.description }
  else
    match f.name with
    | .text name => .ok { f with description := Description.ofField name resource f.description }
    | _ => .error .wrongShape

/-- Filters, each described. -/
def describeAll (resource : String) : List Filter → Result (List Filter)
  | [] => .ok []
  | f :: rest => do
    let f ← describe resource f
    .ok (f :: (← describeAll resource rest))

/-- The filters of a list operation in the order of their names; none if it does not exist. -/
def ofOperation (d : Document) (id : Value) (resource : String) : Result (List Filter) := do
  if !id.given then .ok []
  else if !(← d.has id) then .ok []
  else
    let filters ← ofParameters { document := d } id (← d.parameters id)
    let sorted ← sortOnKey (·.name) filters
    if resource.isEmpty then .ok sorted else describeAll resource sorted

end Filter

end ApiModels
