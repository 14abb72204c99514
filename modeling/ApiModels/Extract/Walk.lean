/-
ApiModels.Extract.Walk — the fields of a schema node.

`Extractor.walk` turns a node into its fields, sorted by name. Its
properties are its own and those of the parts it is composed of by
`allOf`, the first declaration of a name counting. Objects and arrays of
objects are walked in turn, down to the depth of the extractor: an object
without fields becomes a map of texts, an array of objects without fields
is left out.

The recursion is on the number of levels left. One level is
`Extractor.fieldsOf`, which does not recurse but is given the walk of the
next level.
-/
import ApiModels.Extract.SchemaType
import ApiModels.Naming
import ApiModels.Value.Order

namespace ApiModels

/-- The walk of nested nodes: a path and a node to fields. -/
abbrev Nested := Scalar → Value → Result (List Field)

namespace Schema

/-- Members each of whose names is new: later members of a known name are dropped. -/
def addProperties (known : Members) : Members → Members
  | [] => known
  | (name, v) :: rest =>
    if (known.lookup name).isSome then addProperties known rest
    else addProperties (known ++ [(name, v)]) rest

/-- The properties and the required names of parts that a node is composed of. -/
def addParts (d : Document) : List Value → Members → List Scalar → Result (Members × List Scalar)
  | [], properties, required => .ok (properties, required)
  | part :: rest, properties, required => do
    match (← d.resolve part).node with
    | none => addParts d rest properties required
    | some schema =>
      let inherited ← (schema.get "properties").membersOrNone
      let names ← (schema.get "required").names
      addParts d rest (addProperties properties inherited) (required ++ names)

/-- The properties of a node with those of its parts, and the names that it requires. -/
def properties (d : Document) (schema : Members) : Result (Members × List Scalar) := do
  let own ← (schema.get "properties").association
  let required ← (schema.get "required").names
  addParts d (← (schema.get "allOf").itemsOrNone) (addProperties [] own) required

/-- A bound as a double; truth values and texts are no bounds. -/
def bound : Value → Result (Option Binary64)
  | .int n =>
    match Binary64.ofInt? n with
    | some x => .ok (some x)
    | none => .error .beyondDoubles
  | .float x => .ok (some x)
  | _ => .ok none

/-- A text that may be absent. -/
def textOrNone (v : Value) : Result String :=
  if v.given then v.asText else .ok ""

end Schema

/-- A name in lower case. Texts and bytes have one, of bytes only the letters of ASCII. -/
def Scalar.lower : Scalar → Result Scalar
  | .text s => .ok (.text (Text.lower s))
  | .bytes bs => .ok (.bytes (bs.map fun b => if 0x41 ≤ b && b ≤ 0x5A then b + 0x20 else b))
  | _ => .error .wrongShape

/-- A field with the adjustments of its path. -/
def FieldOverride.apply (o : FieldOverride) (f : FieldInfo) : FieldInfo :=
  { f with
    serverComputed := f.serverComputed || o.computed
    useStateForUnknown := f.useStateForUnknown || o.computed
    required := o.required || (f.required && !o.optional)
    forceNew := f.forceNew || o.forceNew }

/-- A path one name longer; from no path on it is the name itself. -/
def dotted (path name : Scalar) : Scalar :=
  if path.given then .text (path.display ++ "." ++ name.display) else name

/-- A path can be made one name longer: a name alone need not be told, parts of a path must be. -/
def canBeDotted (path name : Scalar) : Bool :=
  !path.given || (path.canBeTold && name.canBeTold)

/-- A path one name longer, if it can be made. -/
def extended (path name : Scalar) : Result Scalar :=
  if canBeDotted path name then .ok (dotted path name) else .error (.tooManyDigits none)

namespace Extractor

/-- What a schema node says of a field by itself, with the policy's adjustments. -/
def fieldInfo (x : Extractor) (path name : Scalar) (required : Bool) (refName : String)
    (type : SemanticType) (schema : Members) : Result FieldInfo := do
  let actual := type.actual name.display
  let description ← Schema.textOrNone (schema.get "description")
  let minimum ← Schema.bound (schema.get "minimum")
  let maximum ← Schema.bound (schema.get "maximum")
  let info : FieldInfo :=
    { name := name
      type := actual
      format := schema.get "format"
      description := Description.escape description
      required := required
      readOnly := (schema.get "readOnly").given
      refName := refName
      minimum := minimum
      maximum := maximum
      pattern := if actual = type then schema.get "pattern" else .null
      hasDefault := schema.has "default" }
  .ok (match x.policy.overrideAt? path with
    | some o => o.apply info
    | none => info)

/-- An array: its items are walked if they are objects, and then must have fields. -/
def arrayField (x : Extractor) (nested : Nested) (path : Scalar) (info : FieldInfo)
    (schema : Members) : Result (Option Field) := do
  let items := schema.get "items"
  let resolved ← x.document.resolve items
  match resolved.node with
  | none => .ok none
  | some itemSchema =>
    let itemType ← x.schemaType itemSchema
    let info := { info with
      itemType := some itemType
      itemRefName := resolved.name
      kind := if x.policy.isSetField info.name then .set else .list }
    if itemType = .object then
      match ← nested path items with
      | [] => .ok none
      | fields =>
        let item : Field :=
          { name := .text "", type := .object, refName := resolved.name, properties := fields }
        .ok (some { toFieldInfo := info, item := some item })
    else .ok (some (.leaf info))

/-- The type of the values of a map, by what the node allows beyond its properties. -/
def mapValueType (x : Extractor) (name : Scalar) (schema : Members) : Result SemanticType := do
  let allowed := schema.get "additionalProperties"
  match allowed.members? with
  | some (_ :: _) =>
    match (← x.document.resolve allowed).node with
    | none => .ok .string
    | some valueSchema =>
      match ← x.schemaType valueSchema with
      | .unknown | .object | .array => .ok .string
      | t => .ok (t.actualMapValue name.display)
  | _ => .ok .string

/-- An object with its fields, or a map when it has none. -/
def objectField (x : Extractor) (nested : Nested) (path : Scalar) (info : FieldInfo)
    (node : Value) (schema : Members) : Result Field := do
  match ← nested path node with
  | [] =>
    let valueType ← x.mapValueType info.name schema
    .ok (.leaf { info with kind := .map, itemType := some valueType })
  | fields => .ok { toFieldInfo := info, properties := fields }

/--
The field of a property; none if the property leads nowhere or has no known type. The path of one
that has none is told.
-/
def field (x : Extractor) (nested : Nested) (path name : Scalar) (required : Bool)
    (node : Value) : Result (Option Field) := do
  let resolved ← x.document.resolve node
  match resolved.node with
  | none => .ok none
  | some schema =>
    let type ← x.schemaType schema
    let info ← x.fieldInfo path name required resolved.name type schema
    match info.type with
    | .string =>
      let enum ← Schema.textEnum x.document schema
      .ok (some (.leaf { info with enum := enum }))
    | .integer | .boolean | .number => .ok (some (.leaf info))
    | .array => x.arrayField nested path info schema
    | .object => do .ok (some (← x.objectField nested path info node schema))
    | .unknown => do
      let _ ← (Value.scalar path).told
      .ok none

/-- The fields of properties that the policy does not exclude; the paths of the others are told. -/
def fieldsAmong (x : Extractor) (nested : Nested) (path : Scalar) (required : List Scalar) :
    Members → Result (List Field)
  | [] => .ok []
  | (name, node) :: rest => do
    let inner ← extended path name
    let first ←
      if x.policy.excludes name inner then do
        let _ ← (Value.scalar inner).told
        .ok none
      else x.field nested inner name (name.isAmong required) node
    let others ← x.fieldsAmong nested path required rest
    .ok (first.toList ++ others)

/-- Properties without the identifier; all names must have a lower case. -/
def withoutIdentifier (x : Extractor) : Members → Result Members
  | [] => .ok []
  | (name, node) :: rest => do
    let lower ← name.lower
    let others ← x.withoutIdentifier rest
    .ok (if lower.same x.identifier then others else (name, node) :: others)

/-- The fields of a node, given the walk of nested nodes; the identifier may be left out. -/
def fieldsOf (x : Extractor) (nested : Nested) (skipIdentifier : Bool) (path : Scalar)
    (node : Value) : Result (List Field) := do
  match (← x.document.resolve node).node with
  | none => .ok []
  | some schema =>
    let (properties, required) ← Schema.properties x.document schema
    let sorted ← sortOnKey (·.1) properties
    let kept ← if skipIdentifier then x.withoutIdentifier sorted else .ok sorted
    x.fieldsAmong nested path required kept

/-- The fields of a node, nested ones down to so many levels. -/
def walk (x : Extractor) : (levels : Nat) → Nested
  | 0, _, _ => .ok []
  | levels + 1, path, node => x.fieldsOf (x.walk levels) false path node

/-- The levels from a depth down to the greatest one. -/
def levelsFrom (x : Extractor) (depth : Int) : Nat :=
  (x.maxDepth + 1 - depth).toNat

/-- The fields of a node at a depth; at depth zero the identifier may be left out. -/
def walkFrom (x : Extractor) (skipIdentifier : Bool) (depth : Int) (path : Scalar)
    (node : Value) : Result (List Field) :=
  match x.levelsFrom depth with
  | 0 => .ok []
  | levels + 1 => x.fieldsOf (x.walk levels) (skipIdentifier && depth == 0) path node

/-- The fields of a root node without its identifier. -/
def extract (x : Extractor) (node : Value) : Result (List Field) :=
  x.walkFrom true 0 (.text "") node

end Extractor

end ApiModels
