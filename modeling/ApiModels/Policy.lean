/-
ApiModels.Policy — which fields are left out, which arrays are sets, and
what is adjusted field by field.

A field is known by its bare name or by its dotted path from the root; a
policy speaks of both. The path of a root field is its name.
-/
import ApiModels.Value.Shape

namespace ApiModels

/-- Adjustments to one field. -/
structure FieldOverride where
  set : Bool := false
  computed : Bool := false
  optional : Bool := false
  required : Bool := false
  forceNew : Bool := false
  deriving DecidableEq, Repr

/-- Rules for fields. -/
structure Policy where
  excluded : List Scalar := []
  setFields : List Scalar := []
  overrides : List (Scalar × FieldOverride) := []
  deriving Repr

namespace FieldOverride

/-- The adjustments that an object states; a value that is not given states none. -/
def ofValue (v : Value) : Result FieldOverride := do
  let ms ← v.membersOrNone
  .ok { set := (ms.get "set").given
        computed := (ms.get "computed").given
        optional := (ms.get "optional").given
        required := (ms.get "required").given
        forceNew := (ms.get "force_new").given }

end FieldOverride

namespace Policy

/-- The overrides of an object's members, by their keys. -/
def overridesOf : Members → Result (List (Scalar × FieldOverride))
  | [] => .ok []
  | (k, v) :: ms => do
    let o ← FieldOverride.ofValue v
    .ok ((k, o) :: (← overridesOf ms))

/-- The policy that settings state. -/
def ofValues (excluded setFields overrides : Value) : Result Policy := do
  let excluded ← excluded.names
  let setFields ← setFields.names
  let overrides ← overridesOf (← overrides.membersOrNone)
  .ok ⟨excluded, setFields, overrides⟩

/-- The adjustments at a path. -/
def overrideAt? (p : Policy) (path : Scalar) : Option FieldOverride :=
  (p.overrides.find? (fun o => o.1.same path)).map (·.2)

/-- A field is excluded by its name or by its path, if a path is given. -/
def excludes (p : Policy) (name path : Scalar) : Bool :=
  name.isAmong p.excluded || (path.given && path.isAmong p.excluded)

/-- An array field is a set if its override says so; without an override, if it is listed. -/
def isSetField (p : Policy) (name : Scalar) : Bool :=
  match p.overrideAt? name with
  | some o => o.set
  | none => name.isAmong p.setFields

end Policy

end ApiModels
