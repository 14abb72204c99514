/-
ApiModels.Field.Status — what becomes of merged fields: who fills them in,
what a change of them means, how they are described.

Each function here goes through a field tree and changes statements only;
no field is added, removed or moved.
-/
import ApiModels.Field.Basic
import ApiModels.Extract.Walk

namespace ApiModels

namespace Field

/-- Writable top-level fields that no update accepts force a new resource. -/
def deriveForceNew (updatable : List Scalar) (fields : List Field) : List Field :=
  fields.map fun f =>
    { f with forceNew := f.forceNew || (!f.readOnly && !f.name.isAmong updatable) }

/-- The last field with a name. -/
def findLast? (fields : List Field) (name : Scalar) : Option Field :=
  find? fields.reverse name

/-! ## Who fills a field in -/

/-- A field is the server's if it is read-only or the create input, if any, does not have it. -/
def settleInfo (accepted : Bool) (f : FieldInfo) : FieldInfo :=
  let computed := f.serverComputed || f.readOnly || !accepted
  { f with
    serverComputed := computed
    required := f.required && !computed
    useStateForUnknown := f.useStateForUnknown || computed }

mutual

/-- A field and its parts, settled against the field of the create input. -/
def settle (create : Option Field) : Field → Field
  | ⟨info, item, properties⟩ =>
    let settled := settleInfo create.isSome info
    match properties with
    | [] =>
      if info.kind.isSequence then ⟨settled, settleItem create item, []⟩ else ⟨settled, item, []⟩
    | f :: fs =>
      let accepted := match create with
        | some c => c.properties
        | none => []
      ⟨settled, item, settle (findLast? accepted f.name) f :: settleAll accepted fs⟩

/-- An item schema with its properties settled. -/
def settleItem (create : Option Field) : Option Field → Option Field
  | none => none
  | some ⟨info, item, properties⟩ =>
    let accepted := match create with
      | some c => c.itemProperties
      | none => []
    some ⟨info, item, settleAll accepted properties⟩

/-- Fields settled against the fields of the create input. -/
def settleAll (accepted : List Field) : List Field → List Field
  | [] => []
  | f :: fs => settle (findLast? accepted f.name) f :: settleAll accepted fs

end

/-- Decides which fields the server fills in, at every level, by what the create input accepts. -/
def deriveServerComputed (create fields : List Field) : List Field :=
  settleAll create fields

/-! ## Excluded fields that stay -/

mutual

/-- A field and its parts, marked where the policy excludes them. -/
def skipExcluded (policy : Policy) (inputs : List Scalar) (path : Scalar) : Field → Field
  | ⟨info, item, properties⟩ =>
    let inner := dotted path info.name
    let skipped := policy.excludes info.name inner && !info.name.isAmong inputs
    ⟨{ info with schemaSkip := info.schemaSkip || skipped },
      skipExcludedItem policy inputs inner item, skipExcludedAll policy inputs inner properties⟩

/-- An item schema with its properties marked. -/
def skipExcludedItem (policy : Policy) (inputs : List Scalar) (path : Scalar) :
    Option Field → Option Field
  | none => none
  | some ⟨info, item, properties⟩ =>
    some ⟨info, item, skipExcludedAll policy inputs path properties⟩

/-- Fields marked where the policy excludes them and they are no inputs. -/
def skipExcludedAll (policy : Policy) (inputs : List Scalar) (path : Scalar) :
    List Field → List Field
  | [] => []
  | f :: fs => skipExcluded policy inputs path f :: skipExcludedAll policy inputs path fs

end

mutual

/-- The path of a field can be made, and told where the policy excludes it; so can those inside. -/
def hasTellablePaths (policy : Policy) (inputs : List Scalar) (path : Scalar) : Field → Bool
  | ⟨info, item, properties⟩ =>
    let inner := dotted path info.name
    let skipped := policy.excludes info.name inner && !info.name.isAmong inputs
    canBeDotted path info.name && (!skipped || inner.canBeTold)
      && hasTellablePathsAmong policy inputs inner properties
      && itemHasTellablePaths policy inputs inner item

/-- The paths of the properties of an item schema can be made, and told where need be. -/
def itemHasTellablePaths (policy : Policy) (inputs : List Scalar) (path : Scalar) :
    Option Field → Bool
  | none => true
  | some ⟨_, _, properties⟩ => hasTellablePathsAmong policy inputs path properties

/-- The paths of fields can be made, and told where need be. -/
def hasTellablePathsAmong (policy : Policy) (inputs : List Scalar) (path : Scalar) :
    List Field → Bool
  | [] => true
  | f :: fs =>
    hasTellablePaths policy inputs path f && hasTellablePathsAmong policy inputs path fs

end

/-- Fields marked where the policy excludes them and they are no inputs, if paths can be told. -/
def markExcluded (policy : Policy) (inputs : List Scalar) (path : Scalar) (fields : List Field) :
    Result (List Field) :=
  if hasTellablePathsAmong policy inputs path fields then
    .ok (skipExcludedAll policy inputs path fields)
  else .error (.tooManyDigits none)

/-! ## Data sources -/

/-- What a data source says of a field. -/
def dataSourceInfo (f : FieldInfo) : FieldInfo :=
  { f with isDataSource := true, readOnly := true, required := false }

mutual

/-- A field of a data source, with all its parts. -/
def markDataSource : Field → Field
  | ⟨info, item, properties⟩ =>
    ⟨dataSourceInfo info, markDataSourceItem item, markDataSourceAll properties⟩

/-- An item schema of a data source. -/
def markDataSourceItem : Option Field → Option Field
  | none => none
  | some f => some (markDataSource f)

/-- Fields of a data source. -/
def markDataSourceAll : List Field → List Field
  | [] => []
  | f :: fs => markDataSource f :: markDataSourceAll fs

end

/-! ## Descriptions -/

mutual

/--
A field and its properties, each with a description. A name that is no text describes nothing: such
a field must have a description of its own.
-/
def describe (resource : String) : Field → Field
  | ⟨info, item, properties⟩ =>
    ⟨{ info with description := Description.ofField info.name.display resource info.description },
      describeItem resource item, describeAll resource properties⟩

/-- An item schema with its properties described; it has no name and keeps what it says. -/
def describeItem (resource : String) : Option Field → Option Field
  | none => none
  | some ⟨info, item, properties⟩ => some ⟨info, item, describeAll resource properties⟩

/-- Fields, each with a description. -/
def describeAll (resource : String) : List Field → List Field
  | [] => []
  | f :: fs => describe resource f :: describeAll resource fs

end

/-! ## Configured parameters -/

/-- A field for a configured parameter; one of unknown type is a text. -/
def ofParameter (name : Scalar) (typeName description : String) (required : Bool) : Field :=
  let type := match SemanticType.ofName typeName with
    | .unknown => .string
    | t => t
  let info : FieldInfo :=
    { name := name, type := type, description := description, required := required }
  match type with
  | .object => leaf { info with kind := .map, itemType := some .string }
  | .array => leaf { info with itemType := some .string }
  | _ => leaf info

end Field

end ApiModels
