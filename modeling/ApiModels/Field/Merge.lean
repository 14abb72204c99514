/-
ApiModels.Field.Merge — two field lists made one.

`Field.merge` joins what goes in with what comes out: the first side says
what a field is, the second adds what only the server knows. `Field.mergeOrder`
does the same for an order, whose output is the server's alone. Both look
fields up by name and give lists sorted by name, at every level they touch.
-/
import ApiModels.Field.Basic

namespace ApiModels

namespace Field

/-! ## Input and output -/

/-- What the first side's field becomes beside the second side's, their parts aside. -/
def joinInfo (f g : FieldInfo) : FieldInfo :=
  { f with
    readOnly := !f.isPathParam && (f.readOnly || g.readOnly)
    serverComputed := f.serverComputed || g.serverComputed }

mutual

/--
The first side's field joined with the second side's field of the same name. Properties are merged
when both sides have some; else those of the first side stay.
-/
def join (f : Field) : Field → Field
  | ⟨info, item, properties⟩ =>
    { toFieldInfo := joinInfo f.toFieldInfo info
      item := joinItem f.item item
      properties :=
        if f.properties.isEmpty || properties.isEmpty then f.properties
        else sortByName (mergeInto (byName f.properties) properties) }

/-- The first side's item schema with its properties joined; it is never taken from the second. -/
def joinItem (f : Option Field) : Option Field → Option Field
  | none => f
  | some ⟨_, _, properties⟩ =>
    match f with
    | none => none
    | some item =>
      some { item with
        properties :=
          if item.properties.isEmpty || properties.isEmpty then item.properties
          else sortByName (mergeInto (byName item.properties) properties) }

/-- Takes fields into a list one by one: a known name is joined, a new one comes last. -/
def mergeInto (fs : List Field) : List Field → List Field
  | [] => fs
  | g :: gs =>
    match find? fs g.name with
    | some f => mergeInto (put fs (join f g)) gs
    | none => mergeInto (put fs g) gs

end

/-- Two field lists merged, the first one taking precedence. -/
def merge (primary secondary : List Field) : List Field :=
  sortByName (mergeInto (byName primary) secondary)

/-! ## Orders -/

/-- What an order's input field becomes beside the output field, their parts aside. -/
def orderInfo (f g : FieldInfo) : FieldInfo :=
  { f with
    serverComputed := f.serverComputed || !f.required
    description := if f.description.isEmpty then g.description else f.description }

/-- An output field without a counterpart in the input is the server's. -/
def outputOnly (g : Field) : Field :=
  { g with readOnly := true, required := false }

mutual

/-- An order's input field joined with the output field of the same name. -/
def joinOrder (f : Field) : Field → Field
  | ⟨info, item, properties⟩ =>
    let joined := orderInfo f.toFieldInfo info
    if f.hasObjectItems && info.kind.isSequence && item.isSome then
      { f with toFieldInfo := joined, item := joinOrderItem f.item item }
    else if f.isObject && info.kind == .object then
      { f with
        toFieldInfo := joined
        properties := sortByName (mergeOrderInto (byName f.properties) properties) }
    else { f with toFieldInfo := joined }

/-- The input's item schema with its properties joined. -/
def joinOrderItem (f : Option Field) : Option Field → Option Field
  | none => f
  | some ⟨_, _, properties⟩ =>
    match f with
    | none => none
    | some item =>
      some { item with
        properties := sortByName (mergeOrderInto (byName item.properties) properties) }

/-- Takes output fields into a list one by one. -/
def mergeOrderInto (fs : List Field) : List Field → List Field
  | [] => fs
  | g :: gs =>
    match find? fs g.name with
    | some f => mergeOrderInto (put fs (joinOrder f g)) gs
    | none => mergeOrderInto (put fs (outputOnly g)) gs

end

/-- The fields that every order has, with their descriptions. -/
def orderFields : List (Scalar × String) :=
  [(.text "project", "Project URL"), (.text "offering", "Offering URL")]

/-- A field that an order must be given. -/
def demanded (f : Field) : Field :=
  { f with required := true, readOnly := false, serverComputed := false }

/-- Demands the field of a name, which is added as a text if it is missing. -/
def demand (fs : List Field) (name : Scalar) (description : String) : List Field :=
  match find? fs name with
  | some f => put fs (demanded f)
  | none => put fs (demanded (leaf { name := name, description := description }))

/-- The input of an order merged with its output. -/
def mergeOrder (input output : List Field) : List Field :=
  let merged := sortByName (mergeOrderInto (byName input) output)
  sortByName (orderFields.foldl (fun fs p => demand fs p.1 p.2) merged)

end Field

end ApiModels
