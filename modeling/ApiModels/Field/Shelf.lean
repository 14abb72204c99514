/-
ApiModels.Field.Shelf — named field lists that may share fields.

A sorted list holds the same fields as the list it was made from: what is
changed in one shows in the other. So a shelf keeps fields in numbered
places, and its lists are lists of places.
-/
import ApiModels.Field.Merge
import ApiModels.Field.Status
import ApiModels.Struct.Assign
import ApiModels.Value.Order

namespace ApiModels

/-- Named lists of places, and the fields in the places. -/
structure Shelf where
  places : List Field := []
  lists : List (String × List Nat) := []

namespace Shelf

/-- The places of a list. -/
def placesOf (s : Shelf) (name : String) : Result (List Nat) :=
  match s.lists.lookup name with
  | some places => .ok places
  | none => .error .wrongShape

/-- The fields in places. -/
def fieldsAt (s : Shelf) (places : List Nat) : List Field :=
  places.filterMap (s.places[·]?)

/-- The fields of a list. -/
def read (s : Shelf) (name : String) : Result (List Field) := do
  .ok (s.fieldsAt (← s.placesOf name))

/-- Gives a name to a list of places, in the stead of the list that had it. -/
def name (s : Shelf) (name : String) (places : List Nat) : Shelf :=
  { s with lists := (name, places) :: s.lists.filter (fun l => l.1 != name) }

/-- A list of fields of its own. -/
def store (s : Shelf) (name : String) (fields : List Field) : Shelf :=
  ({ s with places := s.places ++ fields } : Shelf).name name
    (List.range' s.places.length fields.length)

/-- Puts changed fields back into their places. -/
def putBack (s : Shelf) (places : List Nat) (fields : List Field) : Shelf :=
  { s with places := (places.zip fields).foldl (fun all p => all.set p.1 p.2) s.places }

/-- Changes the fields of a list where they are. -/
def update (s : Shelf) (name : String) (change : List Field → List Field) : Result Shelf := do
  let places ← s.placesOf name
  .ok (s.putBack places (change (s.fieldsAt places)))

/-- A field more at the end of a list. -/
def append (s : Shelf) (name : String) (f : Field) : Result Shelf := do
  let places ← s.placesOf name
  .ok (({ s with places := s.places ++ [f] } : Shelf).name name (places ++ [s.places.length]))

/-- A list of the same fields in the order of their names. -/
def sort (s : Shelf) (name out : String) : Result Shelf := do
  let places ← s.placesOf name
  let named := (places.zip (s.fieldsAt places))
  let sorted ← sortOnKey (fun p => p.2.name) named
  .ok (s.name out (sorted.map (·.1)))

/-- Collects the structs in lists; the fields of the lists get the names of their structs. -/
def collect (s : Shelf) (found : Field.Found) : List String → Result (Shelf × Field.Found)
  | [] => .ok (s, found)
  | name :: rest => do
    let places ← s.placesOf name
    let (fields, found) := Field.collectAll found (s.fieldsAt places)
    collect (s.putBack places fields) found rest

end Shelf

end ApiModels
