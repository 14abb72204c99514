/-
ApiModels.Field.Names — what the names of fields must be for a later step.

A document may name a property by a number or a date. Such a field can be
read and shown. It can be put in order only beside names of its own kind,
and it cannot be described by its name. Both are asked of a field tree as a
whole: of its fields on every level, but not of item schemas, which have no
names.
-/
import ApiModels.Field.Basic
import ApiModels.Value.Order
import ApiModels.Naming

namespace ApiModels

namespace Field

/-! ## Order -/

mutual

/-- The fields inside a field can be put in the order of their names, on every level. -/
def sortable : Field → Bool
  | ⟨_, item, properties⟩ =>
    sortableItem item && Scalar.allComparable (names properties) && sortableAll properties

/-- The fields inside an item schema can be put in order. -/
def sortableItem : Option Field → Bool
  | none => true
  | some f => sortable f

/-- The fields inside each of some fields can be put in order. -/
def sortableAll : List Field → Bool
  | [] => true
  | f :: fs => sortable f && sortableAll fs

end

/-- Fields that can be put in the order of their names, on every level. -/
def requireSortable (fields : List Field) : Result (List Field) :=
  if Scalar.allComparable (names fields) && sortableAll fields then .ok fields
  else .error .wrongShape

/-! ## Descriptions -/

/-- A field has a description, or a name that one can be made from. -/
def hasDescription (f : FieldInfo) : Bool :=
  f.name.isText || Description.isEnough f.description

mutual

/-- A field and the fields inside it can be described. -/
def describable : Field → Bool
  | ⟨info, item, properties⟩ =>
    hasDescription info && describableItem item && describableAll properties

/-- The fields inside an item schema can be described. -/
def describableItem : Option Field → Bool
  | none => true
  | some ⟨_, _, properties⟩ => describableAll properties

/-- Fields and the fields inside them can be described. -/
def describableAll : List Field → Bool
  | [] => true
  | f :: fs => describable f && describableAll fs

end

/-- Fields that can all be described. -/
def requireDescribable (fields : List Field) : Result (List Field) :=
  if describableAll fields then .ok fields else .error .wrongShape

end Field

end ApiModels
