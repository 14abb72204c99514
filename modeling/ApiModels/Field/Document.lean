/-
ApiModels.Field.Document — fields and filters as values, to be written
into a document.

Every statement of a field is a member of its own, in a fixed order, and
the meta information of its type comes last.
-/
import ApiModels.Field.Basic
import ApiModels.Extract.Filters

namespace ApiModels

namespace Value

/-- An object from members named by texts. -/
def record (members : List (String × Value)) : Value :=
  .object (members.map (fun m => (.text m.1, m.2)))

/-- A list of texts. -/
def texts (ss : List String) : Value :=
  .list (ss.map .text)

/-- A text, or null. -/
def optionalText (s : Option String) : Value :=
  match s with
  | some s => .text s
  | none => .null

/-- A double, or null. -/
def optionalFloat (x : Option Binary64) : Value :=
  match x with
  | some x => .float x
  | none => .null

end Value

/-- The meta information of a type as an object. -/
def TypeMeta.document (m : TypeMeta) : Value :=
  .record
    [("attr_kind", .text m.attrKind.name),
     ("schema_attribute", .text m.schemaAttribute),
     ("validator_type", .text m.validatorType),
     ("element_kind", .optionalText (m.elementKind.map AttrKind.name)),
     ("value_type", .text m.valueType),
     ("element_type", .text m.elementType),
     ("plan_modifier", .text m.planModifier),
     ("from_api", .optionalText m.fromApi),
     ("to_api", .optionalText m.toApi),
     ("is_nested", .bool m.isNested),
     ("is_complex", .bool m.isComplex),
     ("is_date_time", .bool m.isDateTime)]

namespace FieldInfo

/-- What a field says about itself before its parts. -/
def membersBefore (f : FieldInfo) : List (String × Value) :=
  [("name", .scalar f.name),
   ("type", .text f.type.name),
   ("kind", .text f.kind.name),
   ("format", f.format),
   ("description", .text f.description),
   ("required", .bool f.required),
   ("read_only", .bool f.readOnly),
   ("server_computed", .bool f.serverComputed),
   ("force_new", .bool f.forceNew),
   ("use_state_for_unknown", .bool f.useStateForUnknown),
   ("is_path_param", .bool f.isPathParam),
   ("is_data_source", .bool f.isDataSource),
   ("schema_skip", .bool f.schemaSkip),
   ("enum", .texts f.enum),
   ("item_type", .optionalText (f.itemType.map SemanticType.name))]

/-- What a field says about itself after its parts. -/
def membersAfter (f : FieldInfo) : List (String × Value) :=
  [("minimum", .optionalFloat f.minimum),
   ("maximum", .optionalFloat f.maximum),
   ("pattern", f.pattern),
   ("has_default", .bool f.hasDefault),
   ("ref_name", .text f.refName),
   ("item_ref_name", .text f.itemRefName),
   ("attr_type_ref", .text f.attrTypeRef)]

end FieldInfo

namespace Field

mutual

/-- A field as an object. -/
def document : Field → Value
  | ⟨info, item, properties⟩ =>
    .record (info.membersBefore ++
      [("item_schema", documentItem item), ("properties", .list (documents properties))] ++
      info.membersAfter ++
      [("type_meta", (typeMeta { toFieldInfo := info }).document)])

/-- An item schema as an object, or null. -/
def documentItem : Option Field → Value
  | none => .null
  | some f => document f

/-- Fields as objects. -/
def documents : List Field → List Value
  | [] => []
  | f :: fs => document f :: documents fs

end

end Field

/-- A filter as an object. -/
def Filter.document (f : Filter) : Value :=
  .record
    [("name", .scalar f.name),
     ("type", .text f.type),
     ("description", .text f.description),
     ("enum", .texts f.enum)]

end ApiModels
