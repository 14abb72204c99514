/-
ApiModels.Proofs.Struct.Interchange — what structs of one name have in
common for those who read them.

A fingerprint keeps of the type of a property its kind and the kind of its
elements, and these can be read back from the way in which they are written
(`typeName_injective`). They decide all that is said of the type, save
whether it holds a time (`TypeMeta.alike_of_elementKind_eq`).
-/
import ApiModels.Proofs.Field.Names
import ApiModels.Proofs.Struct.Sharing

namespace ApiModels

namespace AttrKind

theorem name_injective {k l : AttrKind} (h : k.name = l.name) : k = l := by
  rw [← Option.some.injEq, ← ofName?_name k, h, ofName?_name]

theorem bracket_not_mem_name (k : AttrKind) : '[' ∉ k.name.toList := by
  cases k <;> decide

end AttrKind

namespace TypeMeta

/-- What is said of a type apart from whether it holds a time. -/
def timeless (t : TypeMeta) : TypeMeta := { t with fromApi := none, isDateTime := false }

/-- The same is said of two types, save that one of them may hold a time and the other not. -/
structure Alike (t u : TypeMeta) : Prop where
  timeless : t.timeless = u.timeless
  eq : t.isDateTime = u.isDateTime → t = u

/-- The kinds of a type and of its elements decide what is said of it, times aside. -/
theorem alike_of_elementKind_eq {kind : AttrKind} {itemType itemType' : SemanticType}
    {isDateTime isDateTime' : Bool}
    (h : (resolve kind itemType isDateTime).elementKind =
      (resolve kind itemType' isDateTime').elementKind) :
    Alike (resolve kind itemType isDateTime) (resolve kind itemType' isDateTime') := by
  have hsequence : ∀ k e : AttrKind, (sequence k e).elementKind = some e := by
    intro k e
    unfold sequence
    split <;> rfl
  cases kind with
  | string => exact ⟨rfl, fun htime => congrArg (scalar .string) htime⟩
  | int64 | bool | float64 | object => exact ⟨rfl, fun _ => rfl⟩
  | list | set =>
    simp only [resolve, hsequence, Option.some.injEq] at h ⊢
    rw [h]
    exact ⟨rfl, fun _ => rfl⟩
  | map =>
    simp only [resolve, map, Option.some.injEq] at h ⊢
    rw [h]
    exact ⟨rfl, fun _ => rfl⟩

end TypeMeta

namespace Field

/-! ## Types as they are written -/

/-- A kind with the kind of its elements, if it has elements, as it is written. -/
def typeName (kind : AttrKind) : Option AttrKind → String
  | some element => kind.name ++ "[" ++ element.name ++ "]"
  | none => kind.name

theorem resolvedType_eq (f : Field) : f.resolvedType = typeName f.kind f.typeMeta.elementKind := by
  unfold resolvedType typeName
  cases f.typeMeta.elementKind <;> rfl

theorem splitOn_typeName (kind : AttrKind) (element : Option AttrKind) :
    Text.splitOn '[' (typeName kind element).toList =
      kind.name.toList :: (element.map fun e => e.name.toList ++ [']']).toList := by
  cases element with
  | none => exact Text.splitOn_of_not_mem kind.bracket_not_mem_name
  | some e =>
    have hlast : '[' ∉ e.name.toList ++ [']'] := by
      rw [List.mem_append, not_or]
      exact ⟨e.bracket_not_mem_name, by decide⟩
    simp only [typeName, String.toList_append, List.append_assoc]
    rw [show "[".toList = ['['] from rfl, show "]".toList = [']'] from rfl, List.singleton_append,
      Text.splitOn_append_cons kind.bracket_not_mem_name, Text.splitOn_of_not_mem hlast]
    rfl

theorem typeName_injective {kind kind' : AttrKind} {element element' : Option AttrKind}
    (h : typeName kind element = typeName kind' element') : kind = kind' ∧ element = element' := by
  have hsplit := splitOn_typeName kind element
  rw [h, splitOn_typeName, List.cons.injEq] at hsplit
  obtain ⟨hkind, helement⟩ := hsplit
  refine ⟨AttrKind.name_injective (String.toList_inj.1 hkind.symm), ?_⟩
  cases element with
  | none =>
    cases element' with
    | none => rfl
    | some e => cases helement
  | some d =>
    cases element' with
    | none => cases helement
    | some e =>
      simp only [Option.map_some, Option.toList_some, List.cons.injEq, List.append_cancel_right_eq,
        and_true] at helement
      rw [AttrKind.name_injective (String.toList_inj.1 helement)]

/-- Fields whose types are written in one way have types of which the same is said. -/
theorem alike_of_resolvedType_eq {f g : Field} (h : f.resolvedType = g.resolvedType) :
    TypeMeta.Alike f.typeMeta g.typeMeta := by
  rw [resolvedType_eq, resolvedType_eq] at h
  obtain ⟨hkind, helement⟩ := typeName_injective h
  unfold typeMeta at helement ⊢
  rw [hkind] at helement ⊢
  exact TypeMeta.alike_of_elementKind_eq helement

/-! ## Structs in place of one another -/

/-- Structs with properties of the same names, of whose types, name by name, the same is said. -/
structure Interchangeable (same : TypeMeta → TypeMeta → Prop) (s t : Field) : Prop where
  names : (names s.properties).Perm (names t.properties)
  types : ∀ p ∈ s.properties, ∀ q ∈ t.properties, p.name = q.name → same p.typeMeta q.typeMeta

/-- Structs whose properties agree in what fingerprints keep can stand in place of one another. -/
theorem interchangeable_of_kept_perm {s t : Field}
    (hperm : (s.properties.map kept).Perm (t.properties.map kept))
    (htext : ∀ q ∈ t.properties, q.name.isText = true) (hdistinct : DistinctTexts t.properties) :
    Interchangeable TypeMeta.Alike s t := by
  constructor
  · have hnames := hperm.map Prod.fst
    rwa [List.map_map, List.map_map] at hnames
  · intro p hp q hq hname
    obtain ⟨q', hq', hkept⟩ := List.mem_map.1 (hperm.mem_iff.1 (List.mem_map_of_mem hp))
    obtain ⟨n, hn⟩ := Scalar.isText_iff.1 (htext q hq)
    have hname' : q'.name = .text n :=
      (congrArg Prod.fst hkept).trans (hname.trans hn)
    have hfound := (find?_text_iff hdistinct).2 ⟨hq', hname'⟩
    rw [(find?_text_iff hdistinct).2 ⟨hq, hn⟩, Option.some.injEq] at hfound
    have htype : p.resolvedType = q'.resolvedType := congrArg (fun k => k.2.1) hkept.symm
    exact alike_of_resolvedType_eq (hfound ▸ htype)

end Field

end ApiModels
