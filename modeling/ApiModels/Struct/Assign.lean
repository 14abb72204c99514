/-
ApiModels.Struct.Assign — naming the structs nested in fields, and
collecting them.

`Field.assignAll` names every nested struct, inner ones first, since the
fingerprint of a struct contains the names of the structs inside it. The
candidate for a name is the name of the reference that led to the struct,
or else the titled path to it.

A path is made of texts. `Field.nameStructs` names the structs of fields
all of which are named by texts; where it meets another name it stops, and
the structs that it has named by then stay in the registry.

`Field.collectLists` goes through field lists and takes the first struct of
every name, also giving structs that have none the name of their reference.
-/
import ApiModels.Struct.Registry
import ApiModels.Value.Order
import ApiModels.Naming

namespace ApiModels

namespace Field

/-! ## Naming -/

/-- The name a struct should have: that of its reference, else its path. -/
def candidate (refName path : String) : String :=
  if refName.isEmpty then path else refName

mutual

/-- Names the structs in a field. `path` is the titled path of the fields around it. -/
def assign (path : String) (r : NameRegistry) : Field → Field × NameRegistry
  | ⟨info, item, properties⟩ =>
    let inner := path ++ Name.titled info.name.display
    if info.kind == .object then
      let (properties, r) := assignAll inner r properties
      let (name, r) := r.register (fingerprintOf properties) (candidate info.refName inner)
      (⟨{ info with attrTypeRef := name }, item, properties⟩, r)
    else if info.kind.isSequence then
      let (item, r) := assignItem inner r item
      (⟨info, item, properties⟩, r)
    else (⟨info, item, properties⟩, r)

/-- Names the structs in an item schema, then the item schema. -/
def assignItem (path : String) (r : NameRegistry) : Option Field → Option Field × NameRegistry
  | none => (none, r)
  | some ⟨info, item, properties⟩ =>
    let (properties, r) := assignAll path r properties
    let (name, r) := r.register (fingerprintOf properties) (candidate info.refName path)
    (some ⟨{ info with attrTypeRef := name }, item, properties⟩, r)

/-- Names the structs in fields, in their order. -/
def assignAll (path : String) (r : NameRegistry) : List Field → List Field × NameRegistry
  | [] => ([], r)
  | f :: fs =>
    let (f, r) := assign path r f
    let (fs, r) := assignAll path r fs
    (f :: fs, r)

end

/-! ## Names that are no texts -/

mutual

/-- The names that naming looks at in a field are all texts. -/
def nameable : Field → Bool
  | ⟨info, item, properties⟩ =>
    info.name.isText &&
      (if info.kind == .object then nameableAll properties
       else if info.kind.isSequence then nameableItem item
       else true)

/-- The names inside an item schema are all texts. -/
def nameableItem : Option Field → Bool
  | none => true
  | some ⟨_, _, properties⟩ => nameableAll properties

/-- The names of fields, and inside them, are all texts. -/
def nameableAll : List Field → Bool
  | [] => true
  | f :: fs => nameable f && nameableAll fs

end

mutual

/-- The registry after the structs in a field that come before a name that is no text. -/
def namedBefore (path : String) (r : NameRegistry) : Field → NameRegistry
  | ⟨info, item, properties⟩ =>
    let inner := path ++ Name.titled info.name.display
    if !info.name.isText then r
    else if info.kind == .object then namedBeforeAmong inner r properties
    else if info.kind.isSequence then namedBeforeItem inner r item
    else r

/-- The registry after the structs in an item schema that come before a name that is no text. -/
def namedBeforeItem (path : String) (r : NameRegistry) : Option Field → NameRegistry
  | none => r
  | some ⟨_, _, properties⟩ => namedBeforeAmong path r properties

/-- The registry after the structs in fields that come before a name that is no text. -/
def namedBeforeAmong (path : String) (r : NameRegistry) : List Field → NameRegistry
  | [] => r
  | f :: fs =>
    if nameable f then namedBeforeAmong path (assign path r f).2 fs else namedBefore path r f

end

/-- Names the structs in fields, as far as names are texts. -/
def nameStructs (path : String) (r : NameRegistry) (fields : List Field) :
    Result (List Field) × NameRegistry :=
  if nameableAll fields then
    let (fields, r) := assignAll path r fields
    (.ok fields, r)
  else (.error .wrongShape, namedBeforeAmong path r fields)

/-! ## Collecting -/

/-- Structs found so far: the names that are taken, and the structs. -/
structure Found where
  keys : List String := []
  structs : List Field := []

/-- The name by which a struct is collected. -/
def structKey (f : FieldInfo) : String :=
  if f.attrTypeRef.isEmpty then f.refName else f.attrTypeRef

/--
Takes a struct, unless its name is taken, and the structs in it, which `inner` takes.

A struct without a name is not taken itself. A name is taken before the structs inside are looked
at.
-/
def takeStruct (found : Found) (info : FieldInfo) (item : Option Field) (properties : List Field)
    (inner : Found → List Field × Found) : Field × Found :=
  let key := structKey info
  if key.isEmpty then
    let (properties, found) := inner found
    (⟨info, item, properties⟩, found)
  else if found.keys.contains key then (⟨info, item, properties⟩, found)
  else
    let (properties, found) := inner { found with keys := key :: found.keys }
    let taken : Field := ⟨{ info with attrTypeRef := key }, item, properties⟩
    (taken, { found with structs := taken :: found.structs })

mutual

/-- Takes the structs in a field. -/
def collect (found : Found) : Field → Field × Found
  | ⟨info, item, properties⟩ =>
    if info.kind == .object then
      takeStruct found info item properties (fun found => collectAll found properties)
    else if info.kind.isSequence then
      let (item, found) := collectItem found item
      (⟨info, item, properties⟩, found)
    else (⟨info, item, properties⟩, found)

/-- Takes an item schema and the structs in it. -/
def collectItem (found : Found) : Option Field → Option Field × Found
  | none => (none, found)
  | some ⟨info, item, properties⟩ =>
    let (struct, found) :=
      takeStruct found info item properties (fun found => collectAll found properties)
    (some struct, found)

/-- Takes the structs in fields, in their order. -/
def collectAll (found : Found) : List Field → List Field × Found
  | [] => ([], found)
  | f :: fs =>
    let (f, found) := collect found f
    let (fs, found) := collectAll found fs
    (f :: fs, found)

end

/-- Takes the structs in several field lists. -/
def collectLists (found : Found) : List (List Field) → List (List Field) × Found
  | [] => ([], found)
  | fs :: rest =>
    let (fs, found) := collectAll found fs
    let (rest, found) := collectLists found rest
    (fs :: rest, found)

/-- The structs in the order of their names. -/
def Found.sorted (found : Found) : List Field :=
  sortedBy (fun f g => f.attrTypeRef < g.attrTypeRef) found.structs

end Field

end ApiModels
