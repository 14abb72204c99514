/-
ApiModels.Struct.Registry — names for nested shapes.

A shape is known by its fingerprint: the names, types and nested names of
its properties, sorted. `NameRegistry.register` gives each fingerprint one
name for good. A name that another shape already has gets the first free
number behind it: `Owner`, `Owner2`, `Owner3`.
-/
import ApiModels.Field.Basic
import ApiModels.Value.Order

namespace ApiModels

/-- The names given so far, by fingerprint and by name. -/
structure NameRegistry where
  byFingerprint : List (String × String) := []
  byName : List (String × String) := []
  deriving Repr, DecidableEq, Inhabited

namespace NameRegistry

/-- The `n`-th name that a candidate may end up as: itself, then itself with 2, 3, … behind it. -/
def numbered (candidate : String) : Nat → String
  | 0 => candidate
  | n + 1 => candidate ++ toString (n + 2)

/-- A name is free for a fingerprint if no other fingerprint has it. -/
def isFree (byName : List (String × String)) (fingerprint name : String) : Bool :=
  match byName.lookup name with
  | some owner => owner == fingerprint
  | none => true

/-- The first free name from the `n`-th on, among so many. -/
def firstFree (byName : List (String × String)) (candidate fingerprint : String) :
    (tries : Nat) → (n : Nat) → String
  | 0, n => numbered candidate n
  | tries + 1, n =>
    if isFree byName fingerprint (numbered candidate n) then numbered candidate n
    else firstFree byName candidate fingerprint tries (n + 1)

/--
The first free name for a candidate.

There are more names to try than there are names taken, so one of them is free.
-/
def uniqueName (byName : List (String × String)) (candidate fingerprint : String) : String :=
  firstFree byName candidate fingerprint byName.length 0

/-- The name of a fingerprint, which is registered if it is new. -/
def register (r : NameRegistry) (fingerprint candidate : String) : String × NameRegistry :=
  match r.byFingerprint.lookup fingerprint with
  | some name => (name, r)
  | none =>
    let name := uniqueName r.byName candidate fingerprint
    (name,
      { byFingerprint := r.byFingerprint ++ [(fingerprint, name)]
        byName := r.byName ++ [(name, fingerprint)] })

/-- The number of names given. -/
def size (r : NameRegistry) : Nat := r.byName.length

end NameRegistry

namespace Field

/-- The name of the struct nested in a property, or empty. -/
def nestedRef (f : Field) : String :=
  if f.attrTypeRef.isEmpty then
    match f.item with
    | some item => item.attrTypeRef
    | none => ""
  else f.attrTypeRef

/-- One property inside a fingerprint. -/
def signature (f : Field) : String :=
  f.name.display ++ ":" ++ f.resolvedType ++ ":" ++ f.nestedRef

/-- The fingerprint of an object with these properties. -/
def fingerprintOf (properties : List Field) : String :=
  "|".intercalate (sortedBy (fun s t => s < t) (properties.map signature))

/-- The fingerprint of an object. -/
def fingerprint (f : Field) : String :=
  fingerprintOf f.properties

end Field

end ApiModels
