/-
ApiModels.Field.Basic — fields: the canonical description of one property
of a schema.

A `Field` is what it says about itself (`FieldInfo`) together with its
parts: the item schema of a list or set of objects, and the properties of
an object. Fields are trees; `Field.item` of a field is itself a field,
without a name, whose properties are the properties of the items.

Fields are found by their names, and a name is the same as another if it
would find the same member of an object (`Scalar.same`).
-/
import ApiModels.SemanticType
import ApiModels.Value.Order
import ApiModels.Value.Shape

namespace ApiModels

/-- What a field says about itself, its parts aside. -/
structure FieldInfo where
  /-- A text, save where a document has another scalar as a member's key. -/
  name : Scalar
  type : SemanticType := .string
  kind : AttrKind := .ofType type
  /-- The declared format, passed on as it stands. -/
  format : Value := .null
  description : String := ""
  required : Bool := false
  readOnly : Bool := false
  serverComputed : Bool := false
  forceNew : Bool := false
  useStateForUnknown : Bool := false
  isPathParam : Bool := false
  isDataSource : Bool := false
  schemaSkip : Bool := false
  enum : List String := []
  /-- The type of list items or map values. -/
  itemType : Option SemanticType := none
  minimum : Option Binary64 := none
  maximum : Option Binary64 := none
  /-- The declared pattern, passed on as it stands. -/
  pattern : Value := .null
  hasDefault : Bool := false
  /-- The name of the reference that led to the schema, or empty. -/
  refName : String := ""
  /-- The name of the reference that led to the items' schema, or empty. -/
  itemRefName : String := ""
  /-- The name given to the nested struct, or empty. -/
  attrTypeRef : String := ""
  deriving Repr, Inhabited

/-- A field: its own statements, the schema of its items, and its properties. -/
structure Field extends FieldInfo where
  item : Option Field := none
  properties : List Field := []
  deriving Inhabited

namespace Field

/-- A field without parts. -/
def leaf (info : FieldInfo) : Field := { toFieldInfo := info }

/-- The field is a single nested object. -/
def isObject (f : Field) : Bool := f.kind == .object

/-- The field is a list or set of nested objects. -/
def hasObjectItems (f : Field) : Bool := f.kind.isSequence && f.item.isSome

/-- The properties of the items; none without an item schema. -/
def itemProperties (f : Field) : List Field :=
  match f.item with
  | some item => item.properties
  | none => []

/-- What an emitter needs to know of the field's type. -/
def typeMeta (f : Field) : TypeMeta :=
  .resolve f.kind (f.itemType.getD .unknown) (f.format.text? == some dateTimeFormat)

/-- The kind with the kind of its elements, as in `list[int64]`. -/
def resolvedType (f : Field) : String :=
  match f.typeMeta.elementKind with
  | some element => f.kind.name ++ "[" ++ element.name ++ "]"
  | none => f.kind.name

/-- Fields in the order of their names; fields of one name keep their order. -/
def sortByName (fields : List Field) : List Field :=
  sortedBy (fun f g => f.name.isBelow g.name) fields

/-- The names of fields. -/
def names (fields : List Field) : List Scalar :=
  fields.map (fun f => f.name)

/-- The first field with a name. -/
def find? (fields : List Field) (name : Scalar) : Option Field :=
  List.find? (fun f => f.name.same name) fields

/-- Puts a field in: in the place of the field of its name, else at the end. -/
def put (fields : List Field) (f : Field) : List Field :=
  match fields with
  | [] => [f]
  | g :: gs => if g.name.same f.name then f :: gs else g :: put gs f

/-- Fields by name: of several with one name the first place and the last field stay. -/
def byName (fields : List Field) : List Field :=
  fields.foldl put []

end Field

end ApiModels
