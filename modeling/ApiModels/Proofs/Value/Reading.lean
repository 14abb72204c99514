/-
ApiModels.Proofs.Value.Reading — what can be read, and how reading fails.

Values are read leniently, and still some cannot be read: a number where an
object is expected, or a name that is no text. `Value.Optionally` says of a
value what is expected of it where it is given at all. A value that is as
expected is read without a failure.

`Result.FailsOnly P x` says of the failures of `x`, if it has any, that they
are among `P`. Steps one after another fail only as each of them does
(`FailsOnly.bind`), and what never fails gives something (`ok_of_never`).
-/
import ApiModels.Proofs.Extract.Walk

namespace ApiModels

namespace Result

variable {α β : Type} {P Q : Failure → Prop} {x : Result α} {f : α → Result β}

/-- A result is no failure, or one of some. -/
def FailsOnly (P : Failure → Prop) (x : Result α) : Prop := ∀ e, x = .error e → P e

theorem failsOnly_of_ok (h : ∃ a, x = .ok a) : FailsOnly P x := by
  obtain ⟨a, rfl⟩ := h
  exact nofun

theorem failsOnly_ok (a : α) : FailsOnly P (.ok a : Result α) := nofun

theorem failsOnly_error {e : Failure} (h : P e) : FailsOnly P (.error e : Result α) := by
  rintro _ ⟨⟩
  exact h

theorem FailsOnly.mono (hPQ : ∀ e, P e → Q e) (h : FailsOnly P x) : FailsOnly Q x :=
  fun e he => hPQ e (h e he)

theorem FailsOnly.bind (hx : FailsOnly P x) (hf : ∀ a, x = .ok a → FailsOnly P (f a)) :
    FailsOnly P (x >>= f) := by
  cases x with
  | error e =>
    rintro _ ⟨⟩
    exact hx e rfl
  | ok a => exact hf a rfl

/-- A step that cannot fail leaves the failures to the next one. -/
theorem failsOnly_bind_of_ok (hx : ∃ a, x = .ok a) (hf : ∀ a, x = .ok a → FailsOnly P (f a)) :
    FailsOnly P (x >>= f) :=
  (failsOnly_of_ok hx).bind hf

theorem FailsOnly.exists_ok (h : FailsOnly P x) (hP : ∀ e, ¬ P e) : ∃ a, x = .ok a := by
  cases x with
  | error e => exact absurd (h e rfl) (hP e)
  | ok a => exact ⟨a, rfl⟩

theorem ok_of_never (h : FailsOnly (fun _ => False) x) : ∃ a, x = .ok a :=
  h.exists_ok fun _ => not_false

end Result

namespace Value

/-! ## What is expected of a value -/

/-- A value is a text. -/
def IsText (v : Value) : Prop := ∃ s, v = .text s

/-- A value is an object. -/
def IsObject (v : Value) : Prop := ∃ ms, v.members? = some ms

/-- A value is a list. -/
def IsList (v : Value) : Prop := ∃ vs, v.bare = .list vs

/-- A value is a list of texts. -/
def IsTexts (v : Value) : Prop := ∃ vs, v.bare = .list vs ∧ ∀ w ∈ vs, w.IsText

/-- A value has some type, where it is given at all. -/
def Optionally (T : Value → Prop) (v : Value) : Prop := v.given = true → T v

theorem optionally_null (T : Value → Prop) : Value.null.Optionally T := nofun

/-! ## Reading it -/

variable {v : Value}

theorem eq_text_of_text? {s : String} (h : v.text? = some s) : v = .text s := by
  unfold text? at h
  split at h <;> cases h
  rfl

theorem asText_ok (h : v.IsText) : ∃ s, v.asText = .ok s := by
  obtain ⟨s, rfl⟩ := h
  exact ⟨s, rfl⟩

theorem membersOrNone_ok (h : v.Optionally IsObject) : ∃ ms, v.membersOrNone = .ok ms := by
  unfold membersOrNone
  split
  · rename_i hgiven
    obtain ⟨ms, hms⟩ := h hgiven
    exact ⟨ms, by rw [members, hms]⟩
  · exact ⟨[], rfl⟩

theorem association_eq (h : v.Optionally IsObject) : v.association = v.membersOrNone := by
  unfold association membersOrNone
  split
  · rename_i hgiven
    obtain ⟨ms, hms⟩ := h hgiven
    rw [members, hms]
  · rfl

theorem association_object (ms : Members) : (Value.object ms).association = .ok ms := by
  cases ms <;> rfl

theorem items_of_list {vs : List Value} (h : v.bare = .list vs) : v.items = .ok vs := by
  rw [items, h]

theorem itemsOrNone_ok (h : v.Optionally IsList) : ∃ vs, v.itemsOrNone = .ok vs := by
  unfold itemsOrNone
  split
  · rename_i hgiven
    obtain ⟨vs, hvs⟩ := h hgiven
    exact ⟨vs, items_of_list hvs⟩
  · exact ⟨[], rfl⟩

theorem keys_ok {vs : List Value} (h : ∀ v ∈ vs, v.IsText) :
    ∃ ss, keys vs = .ok ss ∧ ∀ s ∈ ss, s.isText = true := by
  induction vs with
  | nil => exact ⟨[], rfl, nofun⟩
  | cons v vs ih =>
    obtain ⟨⟨s, rfl⟩, hrest⟩ := List.forall_mem_cons.1 h
    obtain ⟨ss, hss, htexts⟩ := ih hrest
    refine ⟨.text s :: ss, ?_, List.forall_mem_cons.2 ⟨rfl, htexts⟩⟩
    rw [keys, hss]
    rfl

theorem names_ok (h : v.Optionally IsTexts) : ∃ ss, v.names = .ok ss := by
  have htexts : ∃ vs, v.itemsOrNone = .ok vs ∧ ∀ w ∈ vs, w.IsText := by
    unfold itemsOrNone
    split
    · rename_i hgiven
      obtain ⟨vs, hvs, htexts⟩ := h hgiven
      exact ⟨vs, items_of_list hvs, htexts⟩
    · exact ⟨[], rfl, nofun⟩
  obtain ⟨vs, hvs, htexts⟩ := htexts
  obtain ⟨ss, hss, -⟩ := keys_ok htexts
  exact ⟨ss, by rw [names, hvs]; exact hss⟩

/-- What does not look at the mark of a value is the same without it. -/
theorem apply_bare {τ α : Type} {f : Value τ → α} (h : ∀ n v, f (.knot n v) = f v)
    (v : Value τ) : f v.bare = f v := by
  induction v using Value.bare.induct with
  | case1 n v ih => exact ih.trans (h n v).symm
  | case2 v hv => rw [bare.eq_2 v hv]

theorem given_bare (v : Value) : v.bare.given = v.given :=
  apply_bare (fun _ _ => rfl) v

theorem bare_of_members? {τ : Type} {v : Value τ} {ms : Members τ} (h : v.members? = some ms) :
    v.bare = .object ms := by
  unfold members? at h
  split at h
  · rename_i hbare
    exact Option.some.inj h ▸ hbare
  · cases h

theorem given_of_members? {ms : Members} (h : v.members? = some ms) : v.given = !ms.isEmpty := by
  rw [← given_bare, bare_of_members? h, given]

theorem first_ok (hlist : v.IsList) (hgiven : v.given = true) : ∃ w, v.first = .ok w := by
  obtain ⟨vs, hvs⟩ := hlist
  rw [← given_bare, hvs] at hgiven
  cases vs with
  | nil => cases hgiven
  | cons w ws => exact ⟨w, by rw [first, hvs]; rfl⟩

theorem textOrNone_ok (h : v.Optionally IsText) : ∃ s, Schema.textOrNone v = .ok s := by
  unfold Schema.textOrNone
  split
  · rename_i hgiven
    obtain ⟨s, rfl⟩ := h hgiven
    exact ⟨s, rfl⟩
  · exact ⟨"", rfl⟩

theorem told_ok {name : Scalar} (h : name.isText = true) :
    ∃ s, (Value.scalar name).told = .ok s := by
  obtain ⟨s, rfl⟩ := Scalar.isText_iff.1 h
  exact ⟨s, rfl⟩

/-- Values are told one after another, unless there is one among them that cannot be told. -/
theorem toldEach_failsOnly (vs : List Value) :
    Result.FailsOnly (fun e => e = .tooManyDigits none ∧ ∃ v ∈ vs, v.canBeTold = false)
      (toldEach vs) := by
  induction vs with
  | nil => exact Result.failsOnly_ok []
  | cons v vs ih =>
    refine .bind (fun e he => ?_) fun s _ => .bind (ih.mono ?_) fun ss _ => Result.failsOnly_ok _
    · unfold told at he
      split at he
      · cases he
      · rename_i hlong
        cases he
        exact ⟨rfl, v, List.mem_cons_self, Bool.not_eq_true _ ▸ hlong⟩
    · rintro e ⟨he, w, hw, hlong⟩
      exact ⟨he, w, List.mem_cons_of_mem _ hw, hlong⟩

theorem canBeTold_of_toldEach {vs : List Value} :
    ∀ {ss : List String}, toldEach vs = .ok ss → ∀ v ∈ vs, v.canBeTold = true := by
  induction vs with
  | nil => exact fun _ => nofun
  | cons v vs ih =>
    intro ss h
    simp only [toldEach, Result.bind_eq_ok] at h
    obtain ⟨s, hs, rest, hrest, -⟩ := h
    refine List.forall_mem_cons.2 ⟨?_, ih hrest⟩
    unfold told at hs
    split at hs
    · assumption
    · cases hs

end Value

/-! ## Names that are texts -/

theorem canBeTold_of_isText {name : Scalar} (h : name.isText = true) : name.canBeTold = true := by
  obtain ⟨s, rfl⟩ := Scalar.isText_iff.1 h
  rfl

theorem canBeDotted_of_texts {path name : Scalar} (hpath : path.isText = true)
    (hname : name.isText = true) : canBeDotted path name = true := by
  rw [canBeDotted, canBeTold_of_isText hpath, canBeTold_of_isText hname, Bool.and_self,
    Bool.or_true]

/-- A path that grows by a text is one then. -/
theorem dotted_isText (path : Scalar) {name : Scalar} (hname : name.isText = true) :
    (dotted path name).isText = true := by
  unfold dotted
  split
  · rfl
  · exact hname

theorem allComparable_of_texts {names : List Scalar} (h : ∀ name ∈ names, name.isText = true) :
    Scalar.allComparable names = true := by
  cases names with
  | nil => rfl
  | cons a as =>
    obtain ⟨ha, has⟩ := List.forall_mem_cons.1 h
    obtain ⟨s, rfl⟩ := Scalar.isText_iff.1 ha
    refine List.all_eq_true.2 fun b hb => ?_
    obtain ⟨t, rfl⟩ := Scalar.isText_iff.1 (has b hb)
    rfl

/-- Whatever has texts as keys can be put in their order. -/
theorem sortOnKey_ok {α : Type} {keyOf : α → Scalar} {l : List α}
    (h : ∀ a ∈ l, (keyOf a).isText = true) : ∃ sorted, sortOnKey keyOf l = .ok sorted := by
  unfold sortOnKey
  rw [if_pos (allComparable_of_texts (List.forall_mem_map.2 h))]
  exact ⟨_, rfl⟩

end ApiModels
