/-
ApiModels.Proofs.Document.Alike — schemas of documents that differ in the
order of members.

Nodes that are alike lead, in documents that are alike, to objects that are
alike (`Document.Alike.resolve`). The type of a schema and what it enumerates are
the same. Properties are collected from objects and from lists of pairs, of a
schema and of its parts, each by the first declaration of its name; they come in
an order of their own (`Schema.PropertiesAlike`) and are the same once they are
sorted (`Schema.PropertiesAlike.sort`).

Two ways of writing a schema let the order of members show: an enumeration that
is an object, whose keys are its values, and an object with two members among
properties that are given as a list of pairs (`Schema.PlainPairs`).
-/
import ApiModels.Proofs.Document.Regular
import ApiModels.Proofs.Value.Alike

namespace ApiModels

open ApiModels.Result (Agree)
open ApiModels.Members (MemberAlike Reordered)

/-! ## References -/

/-- Two nodes lead to objects that are alike, under one name, or to none. -/
structure Resolution.Alike (r s : Resolution) : Prop where
  node : Option.Rel Members.Alike r.node s.node
  name : r.name = s.name

/-- Two documents are equal up to the order of members. -/
def Document.Alike (d d' : Document) : Prop := d.root.Alike d'.root

theorem Value.Alike.descend (keys : List String) :
    ∀ {v w : Value}, v.Alike w → Option.Rel Value.Alike (v.descend keys) (w.descend keys) := by
  induction keys with
  | nil => exact fun h => .some h
  | cons key rest ih =>
    intro v w h
    unfold Value.descend
    obtain ⟨hms, hns⟩ | ⟨ms, ns, hms, hns, hmembers⟩ := rel_cases h.members?
    · rw [hms, hns]
      exact .none
    · obtain ⟨hv, hw⟩ | ⟨v, w, hv, hw, hvw⟩ := rel_cases (hmembers.get? key)
      · simp only [hms, hns, hv, hw]
        exact .none
      · simp only [hms, hns, hv, hw]
        exact ih hvw

namespace Members

variable {root root' node node' : Members}

theorem Alike.target? (h : root.Alike root') (pointer : String) :
    Option.Rel Members.Alike (root.target? pointer) (root'.target? pointer) := by
  unfold Members.target?
  cases Pointer.keys? pointer with
  | none => exact .none
  | some keys =>
    simp only
    obtain ⟨hv, hw⟩ | ⟨v, w, hv, hw, hvw⟩ := rel_cases (Value.Alike.descend keys h)
    · rw [hv, hw]
      exact .none
    · rw [hv, hw]
      exact hvw.members?

/-- Only a reference that is a text leads on, and what any other leads to depends on it alone. -/
theorem Alike.follow_of_text (hnode : node.Alike node') {hops : Nat} {name : String}
    (h : ∀ pointer, node.get? Pointer.member = some (.text pointer) →
      node'.get? Pointer.member = some (.text pointer) →
      Agree Resolution.Alike (root.follow hops name node) (root'.follow hops name node')) :
    Agree Resolution.Alike (root.follow hops name node) (root'.follow hops name node') := by
  obtain ⟨hr, hr'⟩ | ⟨r, r', hr, hr', hrefs⟩ := rel_cases (hnode.get? Pointer.member)
  · unfold Members.follow
    simp only [hr, hr']
    exact .ok ⟨.some hnode, rfl⟩
  · by_cases htext : ∃ pointer, r = .text pointer
    · obtain ⟨pointer, rfl⟩ := htext
      cases hrefs
      exact h pointer hr hr'
    · unfold Members.follow
      simp only [hr, hr']
      cases hrefs with
      | scalar s =>
        cases s with
        | text pointer => exact absurd ⟨pointer, rfl⟩ htext
        | _ =>
          refine .bind_eq rfl fun _ _ => ?_
          split
          · exact .bind_eq rfl fun _ _ => .ok ⟨.none, rfl⟩
          · exact .error _
      | list _ => exact .error _
      | object _ _ _ => exact .error _

theorem Alike.follow (hroot : root.Alike root') (hops : Nat) :
    ∀ {name : String} {node node' : Members}, node.Alike node' →
      Agree Resolution.Alike (root.follow hops name node) (root'.follow hops name node') := by
  induction hops with
  | zero =>
    refine fun hnode => hnode.follow_of_text fun pointer h h' => ?_
    unfold Members.follow
    simp only [h, h']
    exact .ok ⟨.none, rfl⟩
  | succ hops ih =>
    refine fun hnode => hnode.follow_of_text fun pointer h h' => ?_
    unfold Members.follow
    obtain ⟨hnext, hnext'⟩ | ⟨next, next', hnext, hnext', hnexts⟩ :=
      rel_cases (hroot.target? pointer)
    · simp only [h, h', hnext, hnext']
      exact .ok ⟨.none, rfl⟩
    · simp only [h, h', hnext, hnext']
      exact ih hnexts

end Members

namespace Document

variable {d d' : Document}

/-- Nodes that are alike lead to objects that are alike. -/
theorem Alike.resolve (hd : d.Alike d') {node node' : Value} (hnode : node.Alike node') :
    Agree Resolution.Alike (d.resolve node) (d'.resolve node') := by
  rw [Document.resolve, Document.resolve, Members.resolve_eq, Members.resolve_eq]
  obtain ⟨hms, hns⟩ | ⟨ms, ns, hms, hns, hmembers⟩ := rel_cases hnode.members?
  · rw [hms, hns]
    exact .ok ⟨.none, rfl⟩
  · rw [hms, hns]
    exact Members.Alike.follow hd _ hmembers

end Document

/-! ## Types and enumerations -/

theorem Value.Alike.find? {p : Value → Bool} (hp : ∀ v w, v.Alike w → p v = p w)
    {vs ws : List Value} (h : List.Forall₂ Value.Alike vs ws) :
    Option.Rel Value.Alike (vs.find? p) (ws.find? p) := by
  induction h with
  | nil => exact .none
  | cons hv _ ih =>
    rw [List.find?_cons, List.find?_cons, hp _ _ hv]
    split
    · exact .some hv
    · exact ih

namespace Schema

variable {d d' : Document} {schema schema' : Members}

theorem declaredType?_eq (h : schema.Alike schema') :
    declaredType? schema = declaredType? schema' := by
  have hdeclared := h.get "type"
  unfold declaredType?
  revert hdeclared
  generalize schema.get "type" = v, schema'.get "type" = w
  intro hdeclared
  have hchosen : ∀ {v w : Value}, v.Alike w →
      (if v.given then some (SemanticType.ofName (v.text?.getD "")) else none) =
        if w.given then some (SemanticType.ofName (w.text?.getD "")) else none :=
    fun h => by rw [h.given_eq, h.text?_eq]
  cases hdeclared with
  | scalar s => rfl
  | list hitems =>
    have hfind := Value.Alike.find? (p := fun t => t.text? != some "null")
      (fun v w hv => by rw [hv.text?_eq]) hitems
    obtain ⟨hv, hw⟩ | ⟨v, w, hv, hw, hvw⟩ := rel_cases hfind
    · simp only [Value.bare, hv, hw]
    · simp only [Value.bare, hv, hw]
      exact hchosen hvw
  | object hms hkeys hvalues => exact hchosen (.object hms hkeys hvalues)

/-- What the members of two schemas state as alternatives is in a relation that each has. -/
theorem alternatives?_rel {R : Value → Value → Prop}
    (hgiven : ∀ member ∈ compositions, (schema.get member).given = (schema'.get member).given)
    (h : ∀ member ∈ compositions, R (schema.get member) (schema'.get member)) :
    Option.Rel R (alternatives? schema) (alternatives? schema') := by
  unfold alternatives?
  revert hgiven h
  generalize compositions = members
  induction members with
  | nil => exact fun _ _ => .none
  | cons member rest ih =>
    intro hgiven h
    obtain ⟨hfirst, hrest⟩ := List.forall_mem_cons.1 h
    obtain ⟨hgivenFirst, hgivenRest⟩ := List.forall_mem_cons.1 hgiven
    simp only [List.findSome?_cons, hgivenFirst]
    cases (schema'.get member).given with
    | true => exact .some hfirst
    | false => exact ih hgivenRest hrest

theorem alternatives?_alike (h : schema.Alike schema') :
    Option.Rel Value.Alike (alternatives? schema) (alternatives? schema') :=
  alternatives?_rel (fun member _ => (h.get member).given_eq) fun member _ => h.get member

theorem firstAlternative_alike (hd : d.Alike d') {alternatives alternatives' : Value}
    (h : alternatives.Alike alternatives') :
    Agree (Option.Rel Members.Alike) (firstAlternative d alternatives)
      (firstAlternative d' alternatives') :=
  h.first.bind fun _ _ _ _ hfirst =>
    (hd.resolve hfirst).bind fun _ _ _ _ hresolve => .ok hresolve.node

/--
Two schemas are typed by the same: they declare one type, or their first alternatives are in a
relation, or both have properties.
-/
structure TypedAs (d d' : Document) (R : Members → Members → Prop) (schema schema' : Members) :
    Prop where
  declared : declaredType? schema = declaredType? schema'
  first : Option.Rel (fun alternatives alternatives' => Agree (Option.Rel R)
    (firstAlternative d alternatives) (firstAlternative d' alternatives'))
    (alternatives? schema) (alternatives? schema')
  properties : (schema.get "properties").given = (schema'.get "properties").given

/-- Schemas in a relation are of one type, if the relation has them typed by the same. -/
theorem typeWithin_rel {R : Members → Members → Prop}
    (hR : ∀ schema schema', R schema schema' → TypedAs d d' R schema schema') (levels : Nat) :
    ∀ {schema schema' : Members}, R schema schema' →
      typeWithin d levels schema = typeWithin d' levels schema' := by
  induction levels with
  | zero => exact fun _ => rfl
  | succ levels ih =>
    intro schema schema' h
    have htyped := hR _ _ h
    unfold typeWithin
    rw [htyped.declared]
    split
    · rfl
    · obtain ⟨hv, hw⟩ | ⟨v, w, hv, hw, hfirst⟩ := rel_cases htyped.first
      · simp only [hv, hw, htyped.properties]
      · simp only [hv, hw]
        refine Agree.eq (hfirst.bind fun found found' _ _ hfound => ?_)
        cases hfound with
        | none => exact .ok rfl
        | some halternative => exact .of_eq (ih halternative) fun _ _ => rfl

/-- The type of a schema does not depend on the order of members. -/
theorem typeWithin_eq (hd : d.Alike d') (levels : Nat) {schema schema' : Members}
    (h : schema.Alike schema') : typeWithin d levels schema = typeWithin d' levels schema' := by
  refine typeWithin_rel (R := Members.Alike) (fun schema schema' h => ?_) levels h
  refine ⟨declaredType?_eq h, ?_, (h.get "properties").given_eq⟩
  obtain ⟨hv, hw⟩ | ⟨v, w, hv, hw, hvw⟩ := rel_cases (alternatives?_alike h)
  · rw [hv, hw]
    exact .none
  · rw [hv, hw]
    exact .some (firstAlternative_alike hd hvw)

/-- An enumeration that is no object lists the same texts. -/
theorem texts_eq {v w : Value} (h : v.Alike w) (hno : v.members? = none) :
    (v.itemsOrNone >>= fun values => Except.ok (values.filterMap Value.text?)) =
      (w.itemsOrNone >>= fun values => Except.ok (values.filterMap Value.text?)) := by
  refine Agree.eq ((h.itemsOrNone hno).bind fun vs ws hvs hws hitems => .ok ?_)
  clear hvs hws
  induction hitems with
  | nil => rfl
  | cons hv _ ih => rw [List.filterMap_cons, List.filterMap_cons, hv.text?_eq, ih]

/-- The first alternative of a schema, where it has one, does not enumerate an object's keys. -/
def PlainAlternative (d : Document) (schema : Members) : Prop :=
  ∀ alternatives alternative, alternatives? schema = some alternatives →
    firstAlternative d alternatives = .ok (some alternative) →
    (Members.get alternative "enum").members? = none

theorem textEnum_eq (hd : d.Alike d') (h : schema.Alike schema')
    (henum : (schema.get "enum").members? = none) (hplain : PlainAlternative d schema) :
    textEnum d schema = textEnum d' schema' := by
  have henums := h.get "enum"
  unfold textEnum
  revert henums henum
  generalize schema.get "enum" = v, schema'.get "enum" = w
  intro henum henums
  by_cases hnull : v = .null
  · subst hnull
    cases henums
    obtain ⟨ha, ha'⟩ | ⟨a, a', ha, ha', halternatives⟩ := rel_cases (alternatives?_alike h)
    · simp only [ha, ha']
    · simp only [ha, ha']
      refine Agree.eq ((firstAlternative_alike hd halternatives).bind
        fun found found' hf _ hfound => ?_)
      cases hfound with
      | none => exact .of_eq rfl fun _ _ => rfl
      | some halternative =>
        exact .of_eq (texts_eq (halternative.get "enum") (hplain _ _ ha hf)) fun _ _ => rfl
  · have hnull' : w ≠ .null := by
      rintro rfl
      cases henums
      exact hnull rfl
    simp only
    exact texts_eq henums henum

/-! ## Properties -/

/--
Properties that differ in the order of members: first those that are given as pairs, one by one,
and then those of objects, under texts and in an order of their own.
-/
def PropertiesAlike (ps qs : Members) : Prop :=
  ∃ own own' new new', ps = own ++ new ∧ qs = own' ++ new' ∧
    List.Forall₂ MemberAlike own own' ∧ Reordered new new' ∧ ∀ m ∈ new, m.1.isText = true

theorem PropertiesAlike.keys {ps qs : Members} (h : PropertiesAlike ps qs) :
    (ps.map Prod.fst).Perm (qs.map Prod.fst) := by
  obtain ⟨own, own', new, new', rfl, rfl, hown, hnew, -⟩ := h
  rw [List.map_append, List.map_append, Members.forall₂_keys Members.keepsKeys_alike hown]
  exact hnew.keys.append_left _

theorem isSome_lookup_append (known : Members) (m : Scalar × Value) (key : Scalar) :
    (Members.lookup (known ++ [m]) key).isSome = ((known.lookup key).isSome || m.1.same key) := by
  simp only [Members.lookup, Option.isSome_map, List.find?_append, Option.isSome_or,
    List.find?_singleton]
  cases m.1.same key <;> rfl

/-- Members under distinct texts are added in their order, those of them that are not known. -/
theorem addProperties_of_keyed {new : Members} (h : new.Keyed) : ∀ known : Members,
    addProperties known new = known ++ new.filter fun m => !(known.lookup m.1).isSome := by
  induction new with
  | nil => exact fun known => (List.append_nil known).symm
  | cons m rest ih =>
    intro known
    obtain ⟨htext, htexts⟩ := List.forall_mem_cons.1 h.texts
    obtain ⟨hfresh, hdistinct⟩ := List.nodup_cons.1 (List.map_cons ▸ h.distinct)
    unfold addProperties
    rw [List.filter_cons]
    cases hknown : (known.lookup m.1).isSome with
    | true => exact ih ⟨htexts, hdistinct⟩ known
    | false =>
      have hsame : rest.filter (fun n => !(Members.lookup (known ++ [m]) n.1).isSome) =
          rest.filter fun n => !(known.lookup n.1).isSome := by
        refine List.filter_congr fun n hn => ?_
        have hother : m.1.same n.1 = false := by
          obtain ⟨s, hs⟩ := Scalar.isText_iff.1 htext
          obtain ⟨t, ht⟩ := Scalar.isText_iff.1 (htexts n hn)
          refine Bool.eq_false_iff.2 fun hsame => hfresh (List.mem_map.2 ⟨n, hn, ?_⟩)
          rw [ht] at hsame ⊢
          exact (Scalar.same_text_iff.1 hsame).symm
        rw [isSome_lookup_append, hother, Bool.or_false]
      have hrest := ih ⟨htexts, hdistinct⟩ (known ++ [m])
      rw [hsame, List.append_assoc] at hrest
      exact hrest

/-- The properties of a part are added alike to properties that are alike. -/
theorem PropertiesAlike.add {ps qs new new' : Members} (h : PropertiesAlike ps qs)
    (hnew : new.Alike new') : PropertiesAlike (addProperties ps new) (addProperties qs new') := by
  have hlookup : ∀ key, (ps.lookup key).isSome = (qs.lookup key).isSome :=
    Members.isSome_lookup_of_keys h.keys
  obtain ⟨own, own', first, first', hps, hqs, hown, ⟨first'', hmembers, hperm⟩, htexts⟩ := h
  obtain ⟨new'', hmembers', hperm'⟩ := hnew.reordered
  rw [addProperties_of_keyed hnew.keyed, addProperties_of_keyed hnew.keyed']
  refine ⟨own, own', first ++ new.filter fun m => !(ps.lookup m.1).isSome,
    first' ++ new'.filter fun m => !(qs.lookup m.1).isSome,
    by rw [← List.append_assoc, ← hps], by rw [← List.append_assoc, ← hqs], hown,
    ⟨first'' ++ new''.filter fun m => !(qs.lookup m.1).isSome,
      List.rel_append hmembers (List.rel_filter ?_ hmembers'), hperm.append (hperm'.filter _)⟩, ?_⟩
  · rintro m n ⟨hkey, -⟩
    simp only [hkey, hlookup]
  · intro m hm
    rcases List.mem_append.1 hm with hm | hm
    · exact htexts m hm
    · exact hnew.keyed.texts m (List.mem_of_mem_filter hm)

/-- Members that correspond one by one are added so. -/
theorem addProperties_forall₂ {T : Scalar × Value → Scalar × Value → Prop}
    (hT : Members.KeepsKeys T) {new new' : Members} (hnew : List.Forall₂ T new new') :
    ∀ {known known' : Members}, List.Forall₂ T known known' →
      List.Forall₂ T (addProperties known new) (addProperties known' new') := by
  induction hnew with
  | nil => exact id
  | @cons m n rest rest' hm hrest ih =>
    intro known known' hknown
    have hlookup : (known.lookup m.1).isSome = (known'.lookup n.1).isSome := by
      rw [Members.isSome_lookup_of_keys (.of_eq (Members.forall₂_keys hT hknown)), hT _ _ hm]
    unfold addProperties
    rw [hlookup]
    split
    · exact ih hknown
    · exact ih (List.rel_append hknown (.cons hm .nil))

theorem propertiesAlike_of_forall₂ {ps qs : Members} (h : List.Forall₂ MemberAlike ps qs) :
    PropertiesAlike ps qs :=
  ⟨ps, qs, [], [], (List.append_nil _).symm, (List.append_nil _).symm, h, ⟨[], .nil, .refl _⟩,
    nofun⟩

/-- No object with two members stands among properties that are given as pairs. -/
def PlainPairs (properties : Value) : Prop :=
  ∀ items, properties = .list items → ∀ item ∈ items, ∀ ms, item.members? = some ms →
    ms.length ≠ 2

/-- The properties that a schema states itself. -/
theorem own_alike {v w : Value} (h : v.Alike w) (hplain : PlainPairs v) :
    Agree (fun own own' => PropertiesAlike (addProperties [] own) (addProperties [] own'))
      v.association w.association := by
  have hnone : PropertiesAlike [] [] := propertiesAlike_of_forall₂ .nil
  unfold Value.association
  rw [h.given_eq]
  split
  · obtain ⟨hms, hns⟩ | ⟨ms, ns, hms, hns, hmembers⟩ := rel_cases h.members?
    · simp only [hms, hns]
      refine (h.items hms).bind fun vs ws hvs hws hitems => ?_
      have hplainItems : ∀ item ∈ vs, ∀ ms, item.members? = some ms → ms.length ≠ 2 := by
        cases h with
        | scalar s =>
          intro item hitem ms hms
          obtain ⟨t, rfl⟩ := Value.items_scalar hvs item hitem
          cases hms
        | list _ =>
          cases hvs
          exact hplain _ rfl
        | object _ _ _ => cases hms
      exact (Value.pairsFrom_alike hitems 0 hplainItems).bind fun _ _ _ _ hps =>
        .ok (propertiesAlike_of_forall₂
          (addProperties_forall₂ Members.keepsKeys_alike (Members.forall₂_ofPairs hps) .nil))
    · simp only [hms, hns]
      exact .ok (hnone.add hmembers)
  · exact .ok hnone

/-- What is collected of a schema: its properties, and in any order the names that it requires. -/
def CollectedAlike (r s : Members × List Scalar) : Prop :=
  PropertiesAlike r.1 s.1 ∧ r.2.Perm s.2

theorem addParts_alike (hd : d.Alike d') {parts parts' : List Value}
    (h : List.Forall₂ Value.Alike parts parts') : ∀ {r s : Members × List Scalar},
      CollectedAlike r s →
      Agree CollectedAlike (addParts d parts r.1 r.2) (addParts d' parts' s.1 s.2) := by
  induction h with
  | nil => exact fun h => .ok h
  | cons hpart _ ih =>
    intro r s ⟨hproperties, hrequired⟩
    unfold addParts
    refine (hd.resolve hpart).bind fun found found' _ _ hfound => ?_
    obtain ⟨hv, hw⟩ | ⟨part, part', hv, hw, hpart⟩ := rel_cases hfound.node
    · simp only [hv, hw]
      exact ih ⟨hproperties, hrequired⟩
    · simp only [hv, hw]
      exact (hpart.get "properties").membersOrNone.bind fun _ _ _ _ hinherited =>
        (hpart.get "required").names.bind fun _ _ _ _ hnames =>
          ih (r := (_, _)) (s := (_, _)) ⟨hproperties.add hinherited, hrequired.append hnames⟩

/-- A scalar leads to no part. -/
theorem addParts_scalars (ss : List Scalar) (properties : Members) (required : List Scalar) :
    addParts d (ss.map .scalar) properties required = .ok (properties, required) := by
  induction ss with
  | nil => rfl
  | cons s ss ih => exact ih

theorem allOf_alike (hd : d.Alike d') {v w : Value} (h : v.Alike w) {r s : Members × List Scalar}
    (hcollected : CollectedAlike r s) :
    Agree CollectedAlike (v.itemsOrNone >>= fun parts => addParts d parts r.1 r.2)
      (w.itemsOrNone >>= fun parts => addParts d' parts s.1 s.2) := by
  cases hms : v.members? with
  | none => exact (h.itemsOrNone hms).bind fun _ _ _ _ hparts => addParts_alike hd hparts hcollected
  | some ms =>
    cases h with
    | scalar _ | list _ => cases hms
    | object hkeyed hkeys _ =>
      rw [Value.itemsOrNone_object, Value.itemsOrNone_object]
      refine .bind (R := fun _ _ => True) (.ok trivial) fun _ _ h h' _ => ?_
      cases h
      cases h'
      rw [addParts_scalars, addParts_scalars]
      exact .ok hcollected

/-- The properties of schemas that are alike. -/
theorem properties_alike (hd : d.Alike d') (h : schema.Alike schema')
    (hplain : PlainPairs (schema.get "properties")) :
    Agree CollectedAlike (properties d schema) (properties d' schema') :=
  (own_alike (h.get "properties") hplain).bind fun _ _ _ _ hown =>
    (h.get "required").names.bind fun _ _ _ _ hrequired =>
      allOf_alike hd (h.get "allOf") (r := (_, _)) (s := (_, _)) ⟨hown, hrequired⟩

/-! ## Their order -/

theorem sameOrder_keys {T : Scalar × Value → Scalar × Value → Prop} (hT : Members.KeepsKeys T) :
    SameOrder T (fun a b => a.1.isBelow b.1) (fun a b => a.1.isBelow b.1) := by
  intro a a' b b' ha hb
  simp only [hT _ _ ha, hT _ _ hb]

/-- Members under texts are keyed by them, if no text is there twice. -/
theorem keyed_of_texts {ps : Members} (htexts : ∀ m ∈ ps, m.1.isText = true)
    (hdistinct : (textNames ps).Nodup) : ps.Keyed := by
  have hkeys : ∀ ms : Members, (∀ m ∈ ms, m.1.isText = true) →
      (textNames ms).map Scalar.text = ms.map Prod.fst := by
    intro ms
    induction ms with
    | nil => exact fun _ => rfl
    | cons m ms ih =>
      intro h
      obtain ⟨hm, hms⟩ := List.forall_mem_cons.1 h
      obtain ⟨s, hs⟩ := Scalar.isText_iff.1 hm
      rw [textNames, List.filterMap_cons, hs, List.map_cons, hs, ← ih hms]
      rfl
  exact ⟨htexts, hkeys ps htexts ▸ hdistinct.map fun _ _ => Scalar.text.inj⟩

/-- Members under distinct texts are sorted in one way, whatever their order before. -/
theorem sortedBy_key_eq_of_perm {ps qs : Members} (hqs : qs.Keyed) (hperm : ps.Perm qs) :
    sortedBy (fun a b => a.1.isBelow b.1) ps = sortedBy (fun a b => a.1.isBelow b.1) qs := by
  refine sortedBy_eq_of_perm (S := (· ∈ qs)) ((ranks_of_textKey Prod.fst).mono hqs.texts) ?_
    (fun m => hperm.mem_iff.1) hperm
  rintro ⟨k, v⟩ ⟨l, w⟩ hk hl hbelow hbelow'
  obtain ⟨s, rfl⟩ := Scalar.isText_iff.1 (hqs.texts _ hk)
  obtain ⟨t, rfl⟩ := Scalar.isText_iff.1 (hqs.texts _ hl)
  obtain rfl := String.le_antisymm (not_below_iff.1 hbelow') (not_below_iff.1 hbelow)
  rw [hqs.eq_of_mem hk hl]

/-- Where a text is among the keys, members can be sorted only if all keys are texts. -/
theorem sortOnKey_mixed {ps : Members} {key other : Scalar} (hkey : key ∈ ps.map Prod.fst)
    (htext : key.isText = true) (hother : other ∈ ps.map Prod.fst)
    (hnoText : ¬ other.isText = true) : sortOnKey (·.1) ps = .error .wrongShape :=
  if_neg fun hcomparable =>
    hnoText (Scalar.isText_of_allComparable hcomparable hkey htext other hother)

theorem sortOnKey_forall₂ {T : Scalar × Value → Scalar × Value → Prop} (hT : Members.KeepsKeys T)
    {ps qs : Members} (h : List.Forall₂ T ps qs) :
    Agree (List.Forall₂ T) (sortOnKey (·.1) ps) (sortOnKey (·.1) qs) := by
  unfold sortOnKey
  rw [Members.forall₂_keys hT h]
  split
  · exact .ok (sortedBy_forall₂ (sameOrder_keys hT) h)
  · exact .error _

/-- Properties that differ in the order of members are the same once they are sorted. -/
theorem PropertiesAlike.sort {ps qs : Members} (h : PropertiesAlike ps qs)
    (hdistinct : (textNames qs).Nodup) :
    Agree (List.Forall₂ MemberAlike) (sortOnKey (·.1) ps) (sortOnKey (·.1) qs) := by
  have hkeys := h.keys
  obtain ⟨own, own', new, new', rfl, rfl, hown, ⟨new'', hmembers, hperm⟩, htexts⟩ := h
  have hcorrespond := List.rel_append hown hmembers
  by_cases hall : ∀ key ∈ (own ++ new).map Prod.fst, key.isText = true
  · have htexts' : ∀ m ∈ own' ++ new', m.1.isText = true := fun m hm =>
      hall m.1 (hkeys.mem_iff.2 (List.mem_map_of_mem hm))
    have hqs := sortedBy_key_eq_of_perm (keyed_of_texts htexts' hdistinct) (hperm.append_left own')
    unfold sortOnKey
    rw [if_pos (allComparable_of_texts hall),
      if_pos (allComparable_of_texts (List.forall_mem_map.2 htexts')), ← hqs]
    exact .ok (sortedBy_forall₂ (sameOrder_keys Members.keepsKeys_alike) hcorrespond)
  · cases hmembers with
    | nil =>
      rw [List.nil_perm.1 hperm]
      exact sortOnKey_forall₂ Members.keepsKeys_alike hcorrespond
    | @cons m _ rest _ hm _ =>
      simp only [not_forall] at hall
      obtain ⟨other, hother, hnoText⟩ := hall
      have hkey : m.1 ∈ (own ++ m :: rest).map Prod.fst :=
        List.mem_map_of_mem (List.mem_append_right _ List.mem_cons_self)
      have htext := htexts m List.mem_cons_self
      rw [sortOnKey_mixed hkey htext hother hnoText,
        sortOnKey_mixed (hkeys.mem_iff.1 hkey) htext (hkeys.mem_iff.1 hother) hnoText]
      exact .error _

end Schema

end ApiModels
