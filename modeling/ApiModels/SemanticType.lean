/-
ApiModels.SemanticType — the types a schema declares, the kinds of
attribute they become, and what an emitter needs to know of each.

`TypeMeta.resolve` is a table: it depends on the declared type, the type
of the items, the format and the kind alone.
-/

namespace ApiModels

/-- The type that a schema node declares. -/
inductive SemanticType where
  | string
  | integer
  | boolean
  | number
  | array
  | object
  | unknown
  deriving DecidableEq, Repr, Inhabited

/-- The kind of attribute that represents a field. -/
inductive AttrKind where
  | string
  | int64
  | bool
  | float64
  | list
  | set
  | map
  | object
  deriving DecidableEq, Repr, Inhabited

namespace SemanticType

/-- The name of a type in schemas; the unknown type has the empty name. -/
def name : SemanticType → String
  | .string => "string"
  | .integer => "integer"
  | .boolean => "boolean"
  | .number => "number"
  | .array => "array"
  | .object => "object"
  | .unknown => ""

/-- The type with a name; other names denote the unknown type. -/
def ofName (s : String) : SemanticType :=
  if s == "string" then .string
  else if s == "integer" then .integer
  else if s == "boolean" then .boolean
  else if s == "number" then .number
  else if s == "array" then .array
  else if s == "object" then .object
  else .unknown

@[simp] theorem ofName_name (t : SemanticType) : ofName t.name = t := by
  cases t <;> decide

end SemanticType

namespace AttrKind

/-- The name of a kind. -/
def name : AttrKind → String
  | .string => "string"
  | .int64 => "int64"
  | .bool => "bool"
  | .float64 => "float64"
  | .list => "list"
  | .set => "set"
  | .map => "map"
  | .object => "object"

/-- The kind with a name. -/
def ofName? (s : String) : Option AttrKind :=
  [string, int64, bool, float64, list, set, map, object].find? (fun k => k.name == s)

/-- Lists, sets and maps have elements. -/
def isCollection : AttrKind → Bool
  | .list | .set | .map => true
  | _ => false

/-- Lists and sets have elements in a row. -/
def isSequence : AttrKind → Bool
  | .list | .set => true
  | _ => false

@[simp] theorem ofName?_name (k : AttrKind) : ofName? k.name = some k := by
  cases k <;> decide

/-- The kind that represents a type unless something else is decided. -/
def ofType : SemanticType → AttrKind
  | .string => .string
  | .integer => .int64
  | .boolean => .bool
  | .number => .float64
  | .array => .list
  | .object => .object
  | .unknown => .string

/-- The kind of a collection's elements; elements that are collections themselves are texts. -/
def ofItemType : SemanticType → AttrKind
  | .array => .string
  | t => ofType t

/-- The name that validators of a kind go by. -/
def validator : AttrKind → String
  | .int64 => "Int64"
  | .bool => "Bool"
  | .float64 => "Float64"
  | _ => "String"

/-- The stem of a scalar kind's names. -/
def stem : AttrKind → String
  | .int64 => "Int64"
  | .bool => "Bool"
  | .float64 => "Float64"
  | .list => "List"
  | .set => "Set"
  | .map => "Map"
  | .object => "Object"
  | .string => "String"

end AttrKind

/-- The format of texts that hold a date and a time. -/
def dateTimeFormat : String := "date-time"

/-- What an emitter needs to know of a field's type. -/
structure TypeMeta where
  attrKind : AttrKind
  schemaAttribute : String
  validatorType : String
  elementKind : Option AttrKind := none
  valueType : String := ""
  elementType : String := ""
  planModifier : String := ""
  fromApi : Option String := none
  toApi : Option String := none
  isNested : Bool := false
  isComplex : Bool := false
  isDateTime : Bool := false
  deriving DecidableEq, Repr

namespace TypeMeta

/-- The meta information of a scalar kind. A text with a date and time is not read directly. -/
def scalar (kind : AttrKind) (isDateTime : Bool) : TypeMeta where
  attrKind := kind
  schemaAttribute := kind.stem ++ "Attribute"
  validatorType := kind.validator
  valueType := kind.stem ++ "Type"
  planModifier := kind.stem
  fromApi := if isDateTime then none else some (kind.stem ++ "PointerValue")
  toApi := some ("Value" ++ kind.stem ++ "Pointer")
  isDateTime := isDateTime

/-- The meta information of a list or set. -/
def sequence (kind element : AttrKind) : TypeMeta :=
  if element = .object then
    { attrKind := kind
      schemaAttribute := kind.stem ++ "NestedAttribute"
      validatorType := kind.validator
      elementKind := some element
      planModifier := kind.stem
      isNested := true
      isComplex := true }
  else
    { attrKind := kind
      schemaAttribute := kind.stem ++ "Attribute"
      validatorType := kind.validator
      elementKind := some element
      elementType := element.stem ++ "Type"
      planModifier := kind.stem
      isComplex := true }

/-- The meta information of a map; its values are never objects. -/
def map (element : AttrKind) : TypeMeta :=
  let element := if element = .object then .string else element
  { attrKind := .map
    schemaAttribute := "MapAttribute"
    validatorType := AttrKind.map.validator
    elementKind := some element
    elementType := element.stem ++ "Type"
    planModifier := "Map"
    isComplex := true }

/-- The meta information of a single nested object. -/
def object : TypeMeta where
  attrKind := .object
  schemaAttribute := "SingleNestedAttribute"
  validatorType := AttrKind.object.validator
  planModifier := "Object"
  isNested := true
  isComplex := true

/-- The meta information of a kind, given the type of its items and whether it has a time. -/
def resolve (kind : AttrKind) (itemType : SemanticType) (isDateTime : Bool) : TypeMeta :=
  match kind with
  | .string => scalar .string isDateTime
  | .int64 => scalar .int64 false
  | .bool => scalar .bool false
  | .float64 => scalar .float64 false
  | .list => sequence .list (.ofItemType itemType)
  | .set => sequence .set (.ofItemType itemType)
  | .map => map (.ofItemType itemType)
  | .object => object

end TypeMeta

/-! ## Types that the service does not return as declared -/

namespace SemanticType

/-- Fields declared as texts that hold numbers. -/
def numericTexts : List String := ["total", "tax", "tax_current", "current"]

/-- Maps declared with numbers that hold texts. -/
def textMaps : List String := ["prices", "switch_price"]

/-- The type that a field of this name really has. -/
def actual (name : String) (t : SemanticType) : SemanticType :=
  if numericTexts.contains name && t = .string then .number else t

/-- The type that the values of a map of this name really have. -/
def actualMapValue (name : String) (t : SemanticType) : SemanticType :=
  if textMaps.contains name && t = .number then .string else t

end SemanticType

end ApiModels
