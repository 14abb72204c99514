/-
ApiModels.Proofs.Value.Alike — values up to the order of members.

Two values are alike when they differ in nothing but the order in which
objects, on any level, list their members (`Value.Alike`). The keys of
objects are texts, and no object has one twice.

What is read of alike values agrees: `Result.Agree R x y` says that `x` and
`y` are values in the relation `R`, or the same failure. A member that is
looked up is alike; a list of items is alike item by item. Only where an
object is read as the list of its keys the order of members shows, and then
in nothing but the order of the list.
-/
import ApiModels.Proofs.Value.Reading
import ApiModels.Proofs.Field.Names
import Mathlib.Data.List.Forall2
import Mathlib.Data.List.Nodup

namespace ApiModels

/-! ## Results that agree -/

namespace Result

variable {α β γ δ : Type} {R : α → β → Prop} {S : γ → δ → Prop}

/-- Two results are values in a relation, or the same failure. -/
inductive Agree (R : α → β → Prop) : Result α → Result β → Prop where
  | ok {a b} (h : R a b) : Agree R (.ok a) (.ok b)
  | error (e : Failure) : Agree R (.error e) (.error e)

/-- Steps agree that go on alike from what the steps before agree on. -/
theorem Agree.bind {x : Result α} {y : Result β} {f : α → Result γ} {g : β → Result δ}
    (h : Agree R x y) (hf : ∀ a b, x = .ok a → y = .ok b → R a b → Agree S (f a) (g b)) :
    Agree S (x >>= f) (y >>= g) := by
  cases h with
  | ok h => exact hf _ _ rfl rfl h
  | error e => exact .error e

/-- A step that is the same on both sides is gone through on both. -/
theorem Agree.bind_eq {x y : Result α} {f : α → Result γ} {g : α → Result δ} (h : x = y)
    (hf : ∀ a, x = .ok a → Agree S (f a) (g a)) : Agree S (x >>= f) (y >>= g) := by
  subst h
  cases x with
  | ok a => exact hf a rfl
  | error e => exact .error e

theorem Agree.of_eq {R : α → α → Prop} {x y : Result α} (h : x = y) (hR : ∀ a, x = .ok a → R a a) :
    Agree R x y := by
  subst h
  cases x with
  | ok a => exact .ok (hR a rfl)
  | error e => exact .error e

theorem Agree.eq {x y : Result α} (h : Agree Eq x y) : x = y := by
  cases h with
  | ok h => rw [h]
  | error e => rfl

theorem Agree.of_ok {a : α} {b : β} (h : Agree R (.ok a) (.ok b)) : R a b := by
  cases h
  assumption

theorem Agree.imp {S : α → β → Prop} {x : Result α} {y : Result β} (h : Agree R x y)
    (hRS : ∀ a b, R a b → S a b) : Agree S x y := by
  cases h with
  | ok h => exact .ok (hRS _ _ h)
  | error e => exact .error e

/-- What agrees does so together with what it is the result of. -/
theorem Agree.and_eq_ok {x : Result α} {y : Result β} (h : Agree R x y) :
    Agree (fun a b => R a b ∧ x = .ok a ∧ y = .ok b) x y := by
  cases h with
  | ok h => exact .ok ⟨h, rfl, rfl⟩
  | error e => exact .error e

/-- Results that agree are taken to one result by two functions that do not tell them apart. -/
theorem Agree.map_eq {x : Result α} {y : Result β} (h : Agree R x y) {f : α → γ} {g : β → γ}
    (hfg : ∀ a b, R a b → f a = g b) : x.map f = y.map g := by
  cases h with
  | ok h => exact congrArg Except.ok (hfg _ _ h)
  | error e => rfl

/-- Lists that agree still do so after what agrees has been put in front of each. -/
theorem Agree.put_front {x : Result (List α)} {y : Result (List β)} (h : Agree (List.Forall₂ R) x y)
    {first : Option α} {first' : Option β} (hfirst : Option.Rel R first first') :
    Agree (List.Forall₂ R) (x >>= fun others => .ok (first.toList ++ others))
      (y >>= fun others => .ok (first'.toList ++ others)) := by
  refine h.bind fun others others' _ _ hothers => .ok (List.rel_append ?_ hothers)
  cases hfirst with
  | none => exact .nil
  | some hf => exact .cons hf .nil

end Result

open ApiModels.Result (Agree)

/-- Two options in a relation are both empty, or hold values in it. -/
theorem rel_cases {α β : Type} {R : α → β → Prop} {x : Option α} {y : Option β}
    (h : Option.Rel R x y) : (x = none ∧ y = none) ∨ ∃ a b, x = some a ∧ y = some b ∧ R a b := by
  cases h with
  | none => exact .inl ⟨rfl, rfl⟩
  | some h => exact .inr ⟨_, _, rfl, rfl, h⟩

/-! ## Values that are alike -/

/-- The keys of members are texts, each once. -/
structure Members.Keyed {τ : Type} (ms : Members τ) : Prop where
  texts : ∀ m ∈ ms, m.1.isText = true
  distinct : (ms.map Prod.fst).Nodup

/-- Two values are equal up to the order of the members of objects on every level. -/
inductive Value.Alike : Value → Value → Prop where
  | scalar (s : Scalar) : Alike (.scalar s) (.scalar s)
  | list {vs ws} (h : List.Forall₂ Alike vs ws) : Alike (.list vs) (.list ws)
  | object {ms ns} (hms : Members.Keyed ms) (hkeys : (ms.map Prod.fst).Perm (ns.map Prod.fst))
      (h : ∀ k v w, (k, v) ∈ ms → (k, w) ∈ ns → Alike v w) : Alike (.object ms) (.object ns)

/-- The members of two objects that are alike. -/
def Members.Alike (ms ns : Members) : Prop := Value.Alike (.object ms) (.object ns)

/-- Two members have one key and alike values. -/
def Members.MemberAlike (m n : Scalar × Value) : Prop := m.1 = n.1 ∧ Value.Alike m.2 n.2

/-- Members are in a relation only if they have one key. -/
def Members.KeepsKeys (T : Scalar × Value → Scalar × Value → Prop) : Prop :=
  ∀ m n, T m n → m.1 = n.1

theorem Members.keepsKeys_alike : KeepsKeys MemberAlike := fun _ _ h => h.1

namespace Members

variable {ms ns : Members}

theorem keyed_nil {τ : Type} : Keyed ([] : Members τ) := ⟨nofun, .nil⟩

theorem alike_nil : Members.Alike [] [] := .object keyed_nil .nil nofun

theorem Alike.keyed (h : ms.Alike ns) : ms.Keyed := by
  cases h
  assumption

theorem Alike.keys (h : ms.Alike ns) : (ms.map Prod.fst).Perm (ns.map Prod.fst) := by
  cases h
  assumption

theorem Alike.value (h : ms.Alike ns) {k : Scalar} {v w : Value} (hv : (k, v) ∈ ms)
    (hw : (k, w) ∈ ns) : v.Alike w := by
  cases h with
  | object _ _ h => exact h k v w hv hw

theorem Keyed.perm_keys {τ : Type} {ms ns : Members τ} (h : ms.Keyed)
    (hkeys : (ms.map Prod.fst).Perm (ns.map Prod.fst)) :
    ns.Keyed := by
  refine ⟨fun n hn => ?_, hkeys.nodup_iff.1 h.distinct⟩
  obtain ⟨m, hm, hmn⟩ := List.mem_map.1 (hkeys.mem_iff.2 (List.mem_map_of_mem hn))
  exact hmn ▸ h.texts m hm

theorem Alike.keyed' (h : ms.Alike ns) : ns.Keyed := h.keyed.perm_keys h.keys

theorem Keyed.eq_of_mem (h : ms.Keyed) {k : Scalar} {v w : Value} (hv : (k, v) ∈ ms)
    (hw : (k, w) ∈ ms) : v = w :=
  congrArg Prod.snd (List.inj_on_of_nodup_map h.distinct hv hw rfl)

/-- Under a text stands the member that has it as its key. -/
theorem lookup_text_iff (h : ms.Keyed) {s : String} {v : Value} :
    ms.lookup (.text s) = some v ↔ (.text s, v) ∈ ms := by
  unfold lookup
  rw [Option.map_eq_some_iff]
  constructor
  · rintro ⟨⟨k, w⟩, hfind, rfl⟩
    have hsame := List.find?_some hfind
    have hkey : k = .text s := Scalar.same_text_iff.1 hsame
    exact hkey ▸ List.mem_of_find?_eq_some hfind
  · intro hmem
    have hsome : (List.find? (fun m => m.1.same (.text s)) ms).isSome = true :=
      List.find?_isSome.2 ⟨_, hmem, Scalar.same_text_iff.2 rfl⟩
    obtain ⟨⟨k, w⟩, hfind⟩ := Option.isSome_iff_exists.1 hsome
    have hsame := List.find?_some hfind
    have hkey : k = .text s := Scalar.same_text_iff.1 hsame
    refine ⟨(k, w), hfind, ?_⟩
    exact h.eq_of_mem (hkey ▸ List.mem_of_find?_eq_some hfind) hmem

/-- Whether there is a member of some key depends on the keys alone. -/
theorem isSome_lookup_of_keys (hkeys : (ms.map Prod.fst).Perm (ns.map Prod.fst)) (k : Scalar) :
    (ms.lookup k).isSome = (ns.lookup k).isSome := by
  have hany : ∀ ls : Members, (ls.lookup k).isSome = (ls.map Prod.fst).any (·.same k) := by
    intro ls
    rw [lookup, Option.isSome_map, Bool.eq_iff_iff, List.find?_isSome, List.any_map,
      List.any_eq_true]
    rfl
  rw [hany, hany, Bool.eq_iff_iff, List.any_eq_true, List.any_eq_true]
  simp only [hkeys.mem_iff]

theorem Alike.get? (h : ms.Alike ns) (key : String) :
    Option.Rel Value.Alike (ms.get? key) (ns.get? key) := by
  unfold Members.get?
  have hsome := isSome_lookup_of_keys h.keys (.text key)
  cases hv : ms.lookup (.text key) with
  | none =>
    rw [hv] at hsome
    rw [Option.isSome_eq_false_iff.1 hsome.symm |> Option.isNone_iff_eq_none.1]
    exact .none
  | some v =>
    rw [hv] at hsome
    obtain ⟨w, hw⟩ := Option.isSome_iff_exists.1 hsome.symm
    rw [hw]
    exact .some (h.value ((lookup_text_iff h.keyed).1 hv) ((lookup_text_iff h.keyed').1 hw))

theorem Alike.get (h : ms.Alike ns) (key : String) : Value.Alike (ms.get key) (ns.get key) := by
  unfold Members.get
  obtain ⟨hv, hw⟩ | ⟨v, w, hv, hw, hvw⟩ := rel_cases (h.get? key)
  · rw [hv, hw]
    exact .scalar _
  · rw [hv, hw]
    exact hvw

theorem Alike.has_eq (h : ms.Alike ns) (key : String) : ms.has key = ns.has key :=
  isSome_lookup_of_keys h.keys (.text key)

/-- No member of an object whose keys are texts is found by a number. -/
theorem lookup_int_eq_none (h : ms.Keyed) (n : Int) : ms.lookup (.int n) = none := by
  rw [lookup, Option.map_eq_none_iff, List.find?_eq_none]
  intro m hm
  obtain ⟨s, hs⟩ := Scalar.isText_iff.1 (h.texts m hm)
  simp [hs, Scalar.same, Scalar.number?]

end Members

namespace Value

open ApiModels.Members (MemberAlike)

variable {v w : Value}

/-! ## What is read of them -/

/-- The items of a scalar are scalars. -/
theorem items_scalar {s : Scalar} {vs : List Value} (h : (Value.scalar s).items = .ok vs) :
    ∀ v ∈ vs, ∃ t, v = .scalar t := by
  cases s <;> cases h <;> simp

theorem Alike.given_eq (h : v.Alike w) : v.given = w.given := by
  cases h with
  | scalar s => rfl
  | list h => cases h <;> rfl
  | object _ hkeys _ =>
    have hlength := hkeys.length_eq
    rw [List.length_map, List.length_map] at hlength
    rw [given, given, Bool.eq_iff_iff, Bool.not_eq_true', Bool.not_eq_true',
      List.isEmpty_eq_false_iff_exists_mem, List.isEmpty_eq_false_iff_exists_mem,
      ← List.length_pos_iff_exists_mem, ← List.length_pos_iff_exists_mem, hlength]

theorem Alike.text?_eq (h : v.Alike w) : v.text? = w.text? := by
  cases h <;> rfl

theorem Alike.key_eq (h : v.Alike w) : v.key = w.key := by
  cases h <;> rfl

theorem Alike.asText_eq (h : v.Alike w) : v.asText = w.asText := by
  cases h <;> rfl

theorem Alike.members? (h : v.Alike w) : Option.Rel Members.Alike v.members? w.members? := by
  cases h with
  | scalar s => exact .none
  | list h => exact .none
  | object hms hkeys h => exact .some (.object hms hkeys h)

/-- Objects that are alike have alike members, and other alike values have none. -/
theorem Alike.membersOrNone (h : v.Alike w) :
    Agree Members.Alike v.membersOrNone w.membersOrNone := by
  unfold Value.membersOrNone
  rw [h.given_eq]
  split
  · unfold members
    obtain ⟨hms, hns⟩ | ⟨ms, ns, hms, hns, h⟩ := rel_cases h.members?
    · rw [hms, hns]
      exact .error _
    · rw [hms, hns]
      exact .ok h
  · exact .ok Members.alike_nil

theorem Alike.items (h : v.Alike w) (hno : v.members? = none) :
    Agree (List.Forall₂ Alike) v.items w.items := by
  cases h with
  | scalar s =>
    refine .of_eq rfl fun vs hvs => List.forall₂_same.2 fun v hv => ?_
    obtain ⟨t, rfl⟩ := items_scalar hvs v hv
    exact .scalar t
  | list h => exact .ok h
  | object _ _ _ => cases hno

theorem Alike.itemsOrNone (h : v.Alike w) (hno : v.members? = none) :
    Agree (List.Forall₂ Alike) v.itemsOrNone w.itemsOrNone := by
  unfold Value.itemsOrNone
  rw [h.given_eq]
  split
  · exact h.items hno
  · exact .ok .nil

theorem Alike.first (h : v.Alike w) : Agree Alike v.first w.first := by
  cases h with
  | scalar s =>
    refine .of_eq rfl fun v hv => ?_
    obtain ⟨vs, hvs, hv⟩ := Result.bind_eq_ok.1 hv
    cases s <;> cases hvs
    all_goals split at hv <;> cases hv
    all_goals rename_i heq
    · obtain ⟨c, -, rfl⟩ := List.mem_map.1 (heq ▸ List.mem_cons_self)
      exact .scalar _
    · obtain ⟨c, -, rfl⟩ := List.mem_map.1 (heq ▸ List.mem_cons_self)
      exact .scalar _
    · cases heq
      exact .scalar _
  | list h =>
    cases h with
    | nil => exact .error _
    | cons h _ => exact .ok h
  | object hms hkeys _ =>
    unfold Value.first
    simp only [bare, Members.lookup_int_eq_none hms,
      Members.lookup_int_eq_none (hms.perm_keys hkeys)]
    exact .error _

/-- Items that are alike have the same keys. -/
theorem keys_eq_of_alike {vs ws : List Value} (h : List.Forall₂ Alike vs ws) :
    keys vs = keys ws := by
  induction h with
  | nil => rfl
  | cons h _ ih => rw [keys, keys, h.key_eq, ih]

theorem keys_scalars (ss : List Scalar) : keys (ss.map .scalar) = .ok ss := by
  induction ss with
  | nil => rfl
  | cons s ss ih => rw [List.map_cons, keys, ih]; rfl

/-- Where a list is expected, an object stands for the list of its keys. -/
theorem itemsOrNone_object (ms : Members) :
    (Value.object ms).itemsOrNone = .ok ((ms.map Prod.fst).map .scalar) := by
  cases ms with
  | nil => rfl
  | cons m ms =>
    rw [List.map_map]
    rfl

/-- The names that alike values hold are the same, in an order of their own. -/
theorem Alike.names (h : v.Alike w) : Agree List.Perm v.names w.names := by
  cases hms : v.members? with
  | none =>
    exact (h.itemsOrNone hms).bind
      fun vs ws _ _ hvs => .of_eq (keys_eq_of_alike hvs) fun _ _ => .rfl
  | some ms =>
    cases h with
    | scalar s | list h => cases hms
    | object hms hkeys h =>
      have hnames : ∀ ls : Members, Value.names (.object ls) = .ok (ls.map Prod.fst) := by
        intro ls
        rw [Value.names, itemsOrNone_object]
        exact keys_scalars _
      rw [hnames, hnames]
      exact .ok hkeys

theorem pairsFrom_cons_error {v : Value} {parts : List Value} (h : v.items = .ok parts)
    (hlength : parts.length ≠ 2) (n : Nat) (vs : List Value) :
    pairsFrom n (v :: vs) = .error (.notAPair n parts.length) := by
  rw [pairsFrom, h]
  match parts, hlength with
  | [], _ | [_], _ | _ :: _ :: _ :: _, _ => rfl

/-- A list of pairs is read alike, unless an object with two members stands for a pair. -/
theorem pairsFrom_alike {vs ws : List Value} (h : List.Forall₂ Alike vs ws) :
    ∀ n, (∀ v ∈ vs, ∀ ms, v.members? = some ms → ms.length ≠ 2) →
      Agree (List.Forall₂ MemberAlike) (pairsFrom n vs) (pairsFrom n ws) := by
  induction h with
  | nil => exact fun _ _ => .ok .nil
  | @cons v w vs ws h _ ih =>
    intro n hno
    obtain ⟨hfirst, hrest⟩ := List.forall_mem_cons.1 hno
    cases hms : v.members? with
    | some ms =>
      cases h with
      | scalar s | list h => cases hms
      | object _ hkeys _ =>
        cases hms
        have hlength := hkeys.length_eq
        simp only [List.length_map] at hlength
        have hmap : ∀ ls : Members, (ls.map fun m => Value.scalar m.1).length = ls.length :=
          fun ls => List.length_map _
        rw [pairsFrom_cons_error rfl (by rw [hmap]; exact hfirst _ rfl),
          pairsFrom_cons_error rfl (by rw [hmap, ← hlength]; exact hfirst _ rfl), hmap, hmap,
          hlength]
        exact .error _
    | none =>
      refine (h.items hms).bind fun parts parts' hparts hparts' hpair => ?_
      have hlength := hpair.length_eq
      rcases hpair with _ | ⟨hk, _ | ⟨hv, _ | _⟩⟩
      · exact .error _
      · exact .error _
      · exact .bind_eq hk.key_eq fun key _ => (ih (n + 1) hrest).bind fun ps qs _ _ hps =>
          .ok (.cons ⟨rfl, hv⟩ hps)
      · simp only [hlength]
        exact .error _

end Value

namespace Members

theorem forall₂_set {ms ns : Members} (h : List.Forall₂ MemberAlike ms ns) {v w : Value}
    (hvw : v.Alike w) (key : Scalar) : List.Forall₂ MemberAlike (set ms key v) (set ns key w) := by
  induction h with
  | nil => exact .cons ⟨rfl, hvw⟩ .nil
  | cons hm hrest ih =>
    unfold set
    rw [hm.1]
    split
    · exact .cons ⟨rfl, hvw⟩ hrest
    · exact .cons hm ih

theorem forall₂_ofPairs {ps qs : Members} (h : List.Forall₂ MemberAlike ps qs) :
    List.Forall₂ MemberAlike (ofPairs ps) (ofPairs qs) := by
  have hfold : ∀ {ps qs ms ns : Members}, List.Forall₂ MemberAlike ps qs →
      List.Forall₂ MemberAlike ms ns →
      List.Forall₂ MemberAlike (ps.foldl (fun members p => set members p.1 p.2) ms)
        (qs.foldl (fun members p => set members p.1 p.2) ns) := by
    intro ps qs ms ns h
    induction h generalizing ms ns with
    | nil => exact id
    | cons hp _ ih =>
      intro hms
      simp only [List.foldl_cons, hp.1]
      exact ih (forall₂_set hms hp.2 _)
  exact hfold h .nil

/-- Members correspond one by one once the second ones are put in another order. -/
def Reordered (ms ns : Members) : Prop :=
  ∃ ns', List.Forall₂ MemberAlike ms ns' ∧ ns'.Perm ns

theorem forall₂_keys {T : Scalar × Value → Scalar × Value → Prop} (hT : KeepsKeys T)
    {ms ns : Members} (h : List.Forall₂ T ms ns) : ms.map Prod.fst = ns.map Prod.fst := by
  induction h with
  | nil => rfl
  | cons hm _ ih => rw [List.map_cons, List.map_cons, hT _ _ hm, ih]

theorem Reordered.keys {ms ns : Members} (h : Reordered ms ns) :
    (ms.map Prod.fst).Perm (ns.map Prod.fst) := by
  obtain ⟨ns', hmembers, hperm⟩ := h
  exact forall₂_keys keepsKeys_alike hmembers ▸ hperm.map _

theorem Alike.reordered {ms ns : Members} (h : ms.Alike ns) : Reordered ms ns := by
  have hfound : ∀ m ∈ ms, ∃ w, (m.1, w) ∈ ns := by
    intro m hm
    obtain ⟨n, hn, heq⟩ := List.mem_map.1 (h.keys.mem_iff.1 (List.mem_map_of_mem hm))
    exact ⟨n.2, heq ▸ hn⟩
  choose! value hvalue using hfound
  refine ⟨ms.map fun m => (m.1, value m), ?_, ?_⟩
  · exact List.forall₂_map_right_iff.2 (List.forall₂_same.2 fun m hm =>
      ⟨rfl, h.value hm (hvalue m hm)⟩)
  · have hkeys : (ms.map fun m => (m.1, value m)).map Prod.fst = ms.map Prod.fst := by
      rw [List.map_map]
      rfl
    refine (List.perm_ext_iff_of_nodup (.of_map _ (hkeys ▸ h.keyed.distinct))
      (.of_map _ h.keyed'.distinct)).2 fun ⟨k, w⟩ => ⟨fun hn => ?_, fun hn => ?_⟩
    · obtain ⟨m, hm, heq⟩ := List.mem_map.1 hn
      exact heq ▸ hvalue m hm
    · obtain ⟨m, hm, rfl⟩ := List.mem_map.1 (h.keys.mem_iff.2 (List.mem_map_of_mem hn))
      exact List.mem_map.2 ⟨m, hm, by rw [h.keyed'.eq_of_mem (hvalue m hm) hn]⟩

/-- Objects are alike whose members correspond once they are put in another order. -/
theorem Keyed.alike_of_reordered {ms ns : Members} (hms : ms.Keyed) (h : Reordered ms ns) :
    ms.Alike ns := by
  refine .object hms h.keys fun k v w hv hw => ?_
  obtain ⟨ns', hmembers, hperm⟩ := h
  have hns' : Keyed ns' := hms.perm_keys (.of_eq (forall₂_keys keepsKeys_alike hmembers))
  obtain ⟨⟨k', w'⟩, hw', rfl, hvw⟩ : ∃ n ∈ ns', MemberAlike (k, v) n := by
    clear hperm hns' hms
    induction hmembers with
    | nil => cases hv
    | cons hm _ ih =>
      rcases List.mem_cons.1 hv with rfl | hv
      · exact ⟨_, List.mem_cons_self, hm⟩
      · obtain ⟨n, hn, h⟩ := ih hv
        exact ⟨n, List.mem_cons_of_mem _ hn, h⟩
  exact hns'.eq_of_mem hw' (hperm.mem_iff.2 hw) ▸ hvw

end Members

end ApiModels
