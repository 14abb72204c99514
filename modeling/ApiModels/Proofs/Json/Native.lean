/-
ApiModels.Proofs.Json.Native — the values that JSON text states.

A value is native if it is one that JSON text can state: its keys are texts, each
once, in none of its texts a low half of a character follows a high one, its whole
numbers are not too long, its doubles have their one form, it has no dates, bytes,
sets and pairs, and no list or object comes again inside itself.
What a JSON text reads as is native (`native_of_parse`), a native value has a JSON
text (`print_of_native`), and comes back from it unchanged, except that it loses
the marks of lists and objects that might have come again (`recast_of_native`). So
a value that has a JSON text is native exactly if it comes back unchanged
(`native_iff_recast`).
-/
import ApiModels.Proofs.Json.RoundTrip
import ApiModels.Proofs.Value.Alike

namespace ApiModels

variable {τ : Type}

/-! ## Members set one after another -/

namespace Members

variable {ms ps : Members τ} {m : Scalar τ × Value τ} {k : Scalar τ} {v : Value τ}

theorem keyed_cons : Keyed (m :: ms) ↔
    m.1.isText = true ∧ (∀ n ∈ ms, n.1 ≠ m.1) ∧ Keyed ms := by
  constructor
  · rintro ⟨htexts, hdistinct⟩
    obtain ⟨hm, hms⟩ := List.forall_mem_cons.1 htexts
    obtain ⟨hfresh, hdistinct⟩ := List.nodup_cons.1 (List.map_cons ▸ hdistinct)
    exact ⟨hm, fun n hn heq => hfresh (List.mem_map.2 ⟨n, hn, heq⟩), hms, hdistinct⟩
  · rintro ⟨hm, hfresh, hms, hdistinct⟩
    refine ⟨List.forall_mem_cons.2 ⟨hm, hms⟩, List.map_cons ▸ List.nodup_cons.2 ⟨?_, hdistinct⟩⟩
    intro hmem
    obtain ⟨n, hn, heq⟩ := List.mem_map.1 hmem
    exact hfresh n hn heq

variable [DecidableEq τ]

theorem set_of_fresh (h : ∀ m ∈ ms, m.1.same k = false) : set ms k v = ms ++ [(k, v)] := by
  induction ms with
  | nil => rfl
  | cons m ms ih =>
    obtain ⟨hm, hms⟩ := List.forall_mem_cons.1 h
    rw [set, hm, ih hms]
    rfl

theorem mem_set (h : m ∈ set ms k v) : (m.1 = k ∨ ∃ n ∈ ms, n.1 = m.1) ∧ (m.2 = v ∨ m ∈ ms) := by
  induction ms with
  | nil =>
    rw [set, List.mem_singleton] at h
    exact h ▸ ⟨.inl rfl, .inl rfl⟩
  | cons n ms ih =>
    rw [set] at h
    split_ifs at h with hsame
    · rcases List.mem_cons.1 h with rfl | h
      · exact ⟨.inr ⟨n, List.mem_cons_self, rfl⟩, .inl rfl⟩
      · exact ⟨.inr ⟨m, List.mem_cons_of_mem n h, rfl⟩, .inr (List.mem_cons_of_mem n h)⟩
    · rcases List.mem_cons.1 h with rfl | h
      · exact ⟨.inr ⟨m, List.mem_cons_self, rfl⟩, .inr List.mem_cons_self⟩
      · obtain ⟨hkey, hvalue⟩ := ih h
        refine ⟨hkey.imp_right ?_, hvalue.imp_right (List.mem_cons_of_mem n)⟩
        rintro ⟨n', hn', heq⟩
        exact ⟨n', List.mem_cons_of_mem n hn', heq⟩

theorem same_eq_false {k l : Scalar τ} (hk : k.isText = true) (hl : l.isText = true) (hne : k ≠ l) :
    k.same l = false := by
  obtain ⟨s, rfl⟩ := Scalar.isText_iff.1 hk
  obtain ⟨t, rfl⟩ := Scalar.isText_iff.1 hl
  exact Bool.eq_false_iff.2 fun hsame => hne (Scalar.same_text_iff.1 hsame)

theorem Keyed.set (h : Keyed ms) (s : τ) (v : Value τ) : Keyed (Members.set ms (.text s) v) := by
  induction ms with
  | nil => exact keyed_cons.2 ⟨rfl, nofun, keyed_nil⟩
  | cons m ms ih =>
    obtain ⟨hm, hfresh, hms⟩ := keyed_cons.1 h
    unfold Members.set
    split_ifs with hsame
    · exact keyed_cons.2 ⟨hm, hfresh, hms⟩
    · refine keyed_cons.2 ⟨hm, fun n hn heq => ?_, ih hms⟩
      rcases (mem_set hn).1 with hkey | ⟨n', hn', hkey⟩
      · exact hsame (Scalar.same_text_iff.2 (heq.symm.trans hkey))
      · exact hfresh n' hn' (hkey.trans heq)

/-- Members under distinct texts are what they are set to. -/
theorem ofPairs_of_keyed (h : Keyed ms) : ofPairs ms = ms := by
  have hset : ∀ (ps known : Members τ), Keyed (known ++ ps) →
      ps.foldl (fun members p => set members p.1 p.2) known = known ++ ps := by
    intro ps
    induction ps with
    | nil => exact fun known _ => (List.append_nil known).symm
    | cons p ps ih =>
      intro known hkeyed
      have hfresh : set known p.1 p.2 = known ++ [p] := by
        refine set_of_fresh fun m hm => same_eq_false ?_ ?_ ?_
        · exact hkeyed.texts m (List.mem_append_left _ hm)
        · exact hkeyed.texts p (List.mem_append_right _ List.mem_cons_self)
        · have hdistinct := hkeyed.distinct
          rw [List.map_append, List.nodup_append] at hdistinct
          exact hdistinct.2.2 _ (List.mem_map_of_mem hm) _ (List.mem_map_of_mem List.mem_cons_self)
      rw [List.foldl_cons, hfresh, ih _ (by rwa [List.append_assoc]), List.append_assoc]
      rfl
  exact hset ms [] h

/-- Members have no keys and no values but those that they are set to. -/
theorem mem_ofPairs (h : m ∈ ofPairs ps) : (∃ p ∈ ps, p.1 = m.1) ∧ ∃ p ∈ ps, p.2 = m.2 := by
  have hset : ∀ ps known : Members τ,
      m ∈ ps.foldl (fun members p => set members p.1 p.2) known →
        (∃ p ∈ known ++ ps, p.1 = m.1) ∧ ∃ p ∈ known ++ ps, p.2 = m.2 := by
    intro ps
    induction ps with
    | nil =>
      intro known h
      rw [List.append_nil]
      exact ⟨⟨m, h, rfl⟩, m, h, rfl⟩
    | cons p ps ih =>
      intro known h
      have hp : p ∈ known ++ p :: ps := List.mem_append_right _ List.mem_cons_self
      have hps : ∀ {q}, q ∈ ps → q ∈ known ++ p :: ps := fun hq =>
        List.mem_append_right _ (List.mem_cons_of_mem p hq)
      obtain ⟨⟨q, hq, hkey⟩, r, hr, hvalue⟩ := ih _ h
      refine ⟨?_, ?_⟩
      · rcases List.mem_append.1 hq with hq | hq
        · rcases (mem_set hq).1 with heq | ⟨n, hn, heq⟩
          · exact ⟨p, hp, heq.symm.trans hkey⟩
          · exact ⟨n, List.mem_append_left _ hn, heq.trans hkey⟩
        · exact ⟨q, hps hq, hkey⟩
      · rcases List.mem_append.1 hr with hr | hr
        · rcases (mem_set hr).2 with heq | hr
          · exact ⟨p, hp, heq.symm.trans hvalue⟩
          · exact ⟨r, List.mem_append_left _ hr, hvalue⟩
        · exact ⟨r, hps hr, hvalue⟩
  exact hset ps [] h

/-- Members set under texts have each text once. -/
theorem keyed_ofPairs (htexts : ∀ p ∈ ps, p.1.isText = true) : Keyed (ofPairs ps) := by
  have hset : ∀ ps known : Members τ, (∀ p ∈ ps, p.1.isText = true) → Keyed known →
      Keyed (ps.foldl (fun members p => set members p.1 p.2) known) := by
    intro ps
    induction ps with
    | nil => exact fun _ _ hknown => hknown
    | cons p ps ih =>
      intro known hps hknown
      obtain ⟨htext, hps⟩ := List.forall_mem_cons.1 hps
      obtain ⟨s, hs⟩ := Scalar.isText_iff.1 htext
      have hset : Keyed (set known p.1 p.2) := by
        rw [hs]
        exact hknown.set s p.2
      exact ih _ hps hset
  exact hset ps [] htexts keyed_nil

end Members

/-- The keys of members are texts whose halves stay apart, each once. -/
structure Members.Named [Spelled τ] (ms : Members τ) : Prop extends ms.Keyed where
  apart : ∀ m ∈ ms, ∀ s, m.1 = .text s → Spelled.Apart s

theorem Members.named_nil [Spelled τ] : Named ([] : Members τ) := ⟨keyed_nil, nofun⟩

/-! ## Native values -/

namespace Value

mutual

/-- A value without the marks of lists and objects that may come again, on every level. -/
def plain : Value τ → Value τ
  | .scalar s => .scalar s
  | .list vs => .list (plainItems vs)
  | .object ms => .object (plainMembers ms)
  | .pair a b => .pair (plain a) (plain b)
  | .set ss => .set ss
  | .knot _ v => plain v

/-- Items without marks. -/
def plainItems : List (Value τ) → List (Value τ)
  | [] => []
  | v :: vs => plain v :: plainItems vs

/-- Members without marks. -/
def plainMembers : Members τ → Members τ
  | [] => []
  | (k, v) :: ms => (k, plain v) :: plainMembers ms

end

/--
A value is one that JSON text can state, inside the lists and objects with the numbers `around`,
which do not come again.
-/
inductive Native [Spelled τ] : List Nat → Value τ → Prop where
  | null {around : List Nat} : Native around .null
  | bool {around : List Nat} (b : Bool) : Native around (.bool b)
  | int {around : List Nat} {n : Int} (hn : Number.isTooLong n = false) : Native around (.int n)
  | float {around : List Nat} {x : Binary64} (hx : x.Proper) : Native around (.float x)
  | text {around : List Nat} {s : τ} (hs : Spelled.Apart s) : Native around (.text s)
  | list {around : List Nat} {vs : List (Value τ)} (h : ∀ v ∈ vs, Native around v) :
      Native around (.list vs)
  | object {around : List Nat} {ms : Members τ} (hms : ms.Named)
      (h : ∀ m ∈ ms, Native around m.2) : Native around (.object ms)
  | knot {around : List Nat} {n : Nat} {v : Value τ} (hn : n ∉ around)
      (h : Native (n :: around) v) : Native around (.knot n v)

theorem plainItems_eq_map (vs : List (Value τ)) : plainItems vs = vs.map plain := by
  induction vs with
  | nil => rfl
  | cons v vs ih => rw [plainItems, ih, List.map_cons]

theorem plainMembers_eq_map (ms : Members τ) :
    plainMembers ms = ms.map fun m => (m.1, m.2.plain) := by
  induction ms with
  | nil => rfl
  | cons m ms ih => rw [plainMembers, ih, List.map_cons]

theorem named_plainMembers [Spelled τ] {ms : Members τ} :
    Members.Named (plainMembers ms) ↔ ms.Named := by
  have hkeys : (plainMembers ms).map Prod.fst = ms.map Prod.fst := by
    rw [plainMembers_eq_map, List.map_map]
    rfl
  have hmem : ∀ k, (∃ m ∈ plainMembers ms, m.1 = k) ↔ ∃ m ∈ ms, m.1 = k := fun k => by
    rw [← List.mem_map, hkeys, List.mem_map]
  constructor
  · rintro ⟨hkeyed, hapart⟩
    refine ⟨hkeyed.perm_keys (.of_eq hkeys), fun m hm s hs => ?_⟩
    obtain ⟨n, hn, heq⟩ := (hmem m.1).2 ⟨m, hm, rfl⟩
    exact hapart n hn s (heq.trans hs)
  · rintro ⟨hkeyed, hapart⟩
    refine ⟨hkeyed.perm_keys (.of_eq hkeys.symm), fun n hn s hs => ?_⟩
    obtain ⟨m, hm, heq⟩ := (hmem n.1).1 ⟨n, hn, rfl⟩
    exact hapart m hm s (heq.trans hs)

variable [DecidableEq τ] [Spelled τ]

theorem recastItems_eq_map (vs : List (Value τ)) : recastItems vs = vs.map recast := by
  induction vs with
  | nil => rfl
  | cons v vs ih => rw [recastItems, ih, List.map_cons]

theorem recastMembers_eq_map (ms : Members τ) :
    recastMembers ms =
      ms.map fun m => (.text (Spelled.joined (Json.keyText m.1)), m.2.recast) := by
  induction ms with
  | nil => rfl
  | cons m ms ih => rw [recastMembers, ih, List.map_cons]

/-- A native value comes back from its JSON text unchanged but for the marks. -/
theorem recast_of_native {around : List Nat} {v : Value τ} (h : Native around v) :
    v.recast = v.plain := by
  induction h with
  | null => rfl
  | bool b => rfl
  | int hn => rfl
  | float hx => rw [recast, Json.recastScalar, Binary64.reread_of_proper hx, plain]
  | text hs => exact congrArg Value.text (Spelled.joined_eq_iff.2 hs)
  | list h ih => rw [recast, plain, recastItems_eq_map, plainItems_eq_map, List.map_congr_left ih]
  | @object _ ms hms h ih =>
    have hmembers : recastMembers ms = plainMembers ms := by
      rw [recastMembers_eq_map, plainMembers_eq_map]
      refine List.map_congr_left fun m hm => ?_
      obtain ⟨s, hs⟩ := Scalar.isText_iff.1 (hms.texts m hm)
      have hjoined : Spelled.joined (Json.keyText m.1) = s := by
        rw [hs]
        exact Spelled.joined_eq_iff.2 (hms.apart m hm s hs)
      rw [ih m hm, hjoined, hs]
    rw [recast, plain, hmembers,
      Members.ofPairs_of_keyed (named_plainMembers.2 hms).toKeyed]
  | knot hn h ih => exact ih

end Value

namespace Json

open ApiModels.Value (Native)

variable [Spelled τ] {v : Value τ} {out : String} {around : List Nat}

/-! ## Native values have JSON texts -/

/-- A value has a JSON text wherever it is written inside `around`, and the mark before it. -/
structure Writable (around : List Nat) (v : Value τ) : Prop where
  mark : ∀ out mark, writeMarkOf out mark v = .ok (out ++ mark)
  value : ∀ level out, ∃ out', writeValue .line around level out v = .ok out'

theorem writeItems_of_writable {vs : List (Value τ)} (h : ∀ v ∈ vs, Writable around v)
    (level : Nat) : ∀ out, ∃ out', writeItems .line around level out vs = .ok out' := by
  induction vs with
  | nil => exact fun out => ⟨out, rfl⟩
  | cons v vs ih =>
    intro out
    obtain ⟨hv, hvs⟩ := List.forall_mem_cons.1 h
    obtain ⟨mid, hwrite⟩ := hv.value level (out ++ (Layout.line : Layout τ).separator level)
    obtain ⟨out', hrest⟩ := ih hvs mid
    refine ⟨out', ?_⟩
    simp only [writeItems, bind_eq_ok]
    exact ⟨_, hv.mark _ _, _, hwrite, hrest⟩

theorem writeMember_of_writable {m : Scalar τ × Value τ} (hkey : m.1.isText = true)
    (h : Writable around m.2) (level : Nat) (out mark : String) :
    ∃ out', writeMember .line around level out mark m = .ok out' := by
  obtain ⟨s, hs⟩ := Scalar.isText_iff.1 hkey
  obtain ⟨k, v⟩ := m
  obtain rfl : k = .text s := hs
  exact h.value level _

theorem writeMembers_of_writable {ms : Members τ} (htexts : ∀ m ∈ ms, m.1.isText = true)
    (h : ∀ m ∈ ms, Writable around m.2) (level : Nat) :
    ∀ out, ∃ out', writeMembers .line around level out ms = .ok out' := by
  induction ms with
  | nil => exact fun out => ⟨out, rfl⟩
  | cons m ms ih =>
    intro out
    obtain ⟨htext, htexts⟩ := List.forall_mem_cons.1 htexts
    obtain ⟨hm, hms⟩ := List.forall_mem_cons.1 h
    obtain ⟨mid, hwrite⟩ := writeMember_of_writable htext hm level out
      ((Layout.line : Layout τ).separator level)
    obtain ⟨out', hrest⟩ := ih htexts hms mid
    refine ⟨out', ?_⟩
    simp only [writeMembers, bind_eq_ok]
    exact ⟨_, hwrite, hrest⟩

/-- A native value has a JSON text, wherever it is written. -/
theorem writable_of_native (h : Native around v) : Writable around v := by
  induction h with
  | null => exact ⟨fun _ _ => rfl, fun _ _ => ⟨_, rfl⟩⟩
  | bool b => exact ⟨fun _ _ => rfl, fun _ _ => ⟨_, rfl⟩⟩
  | @int _ n hn =>
    refine ⟨fun out mark => ?_, fun _ out => ⟨out ++ toString n, ?_⟩⟩
    · simp [writeMarkOf, writeMark, hn]
    · simp [writeValue, writeScalar, Layout.scalar, scalar, hn, write]
  | float hx => exact ⟨fun _ _ => rfl, fun _ _ => ⟨_, rfl⟩⟩
  | text hs => exact ⟨fun _ _ => rfl, fun _ _ => ⟨_, rfl⟩⟩
  | @list _ vs h ih =>
    refine ⟨fun _ _ => rfl, fun level out => ?_⟩
    cases vs with
    | nil => exact ⟨_, rfl⟩
    | cons v vs =>
      obtain ⟨hv, hvs⟩ := List.forall_mem_cons.1 ih
      obtain ⟨mid, hwrite⟩ := hv.value (level + 1)
        (out ++ ("[" ++ (Layout.line : Layout τ).lineBreak (level + 1)))
      obtain ⟨out', hrest⟩ := writeItems_of_writable hvs (level + 1) mid
      refine ⟨out' ++ (Layout.line : Layout τ).lineBreak level ++ "]", ?_⟩
      simp only [writeValue, bind_eq_ok]
      exact ⟨_, hv.mark _ _, _, hwrite, _, hrest, rfl⟩
  | @object _ ms hms h ih =>
    refine ⟨fun _ _ => rfl, fun level out => ?_⟩
    cases ms with
    | nil => exact ⟨_, rfl⟩
    | cons m ms =>
      obtain ⟨htext, htexts⟩ := List.forall_mem_cons.1 hms.texts
      obtain ⟨hm, hvalues⟩ := List.forall_mem_cons.1 ih
      obtain ⟨mid, hwrite⟩ := writeMember_of_writable htext hm (level + 1)
        (out ++ "\x7b" ++ (Layout.line : Layout τ).lineBreak (level + 1)) ""
      obtain ⟨out', hrest⟩ := writeMembers_of_writable htexts hvalues (level + 1) mid
      refine ⟨out' ++ (Layout.line : Layout τ).lineBreak level ++ "\x7d", ?_⟩
      simp only [writeValue, bind_eq_ok]
      exact ⟨_, hwrite, _, hrest, rfl⟩
  | knot hn h ih =>
    refine ⟨fun _ _ => rfl, fun level out => ?_⟩
    rw [writeValue, if_neg (by simpa using hn)]
    exact ih.value level out

theorem print_of_native (h : Native [] v) : ∃ text, print .line v = .ok text :=
  (writable_of_native h).value 0 ""

/-! ## Marks do not matter to what has a JSON text -/

mutual

/-- A value that is native without its marks is so with them, where it is written. -/
theorem native_of_plain : ∀ (v : Value τ) (around : List Nat) (level : Nat) (out out' : String),
    writeValue .line around level out v = .ok out' → Native [] v.plain → Native around v
  | .scalar s, _, _, _, _, _, h => by
    cases h with
    | null => exact .null
    | bool b => exact .bool b
    | int hn => exact .int hn
    | float hx => exact .float hx
    | text hs => exact .text hs
  | .list [], _, _, _, _, _, _ => .list (List.forall_mem_nil _)
  | .list (v :: vs), _, _, _, _, hwrite, .list h => by
    simp only [writeValue, bind_eq_ok] at hwrite
    obtain ⟨_, -, _, hv, _, hvs, -⟩ := hwrite
    obtain ⟨hhead, htail⟩ := List.forall_mem_cons.1 h
    exact .list (List.forall_mem_cons.2
      ⟨native_of_plain v _ _ _ _ hv hhead, native_of_plainItems vs _ _ _ _ hvs htail⟩)
  | .object [], _, _, _, _, _, _ => .object Members.named_nil (List.forall_mem_nil _)
  | .object (m :: ms), _, _, _, _, hwrite, .object hms h => by
    simp only [writeValue, bind_eq_ok] at hwrite
    obtain ⟨_, hm, _, hrest, -⟩ := hwrite
    obtain ⟨hhead, htail⟩ := List.forall_mem_cons.1 h
    exact .object (Value.named_plainMembers.1 hms) (List.forall_mem_cons.2
      ⟨native_of_plainMember m _ _ _ _ _ hm hhead, native_of_plainMembers ms _ _ _ _ hrest htail⟩)
  | .pair a b, _, _, _, _, _, h => nomatch h
  | .set ss, _, _, _, _, _, h => nomatch h
  | .knot n v, around, _, _, _, hwrite, h => by
    simp only [writeValue] at hwrite
    split at hwrite
    · cases hwrite
    · rename_i hn
      exact .knot (by simpa using hn) (native_of_plain v _ _ _ _ hwrite h)

theorem native_of_plainItems : ∀ (vs : List (Value τ)) (around : List Nat) (level : Nat)
    (out out' : String), writeItems .line around level out vs = .ok out' →
    (∀ v ∈ Value.plainItems vs, Native [] v) → ∀ v ∈ vs, Native around v
  | [], _, _, _, _, _, _ => List.forall_mem_nil _
  | v :: vs, _, _, _, _, hwrite, h => by
    simp only [writeItems, bind_eq_ok] at hwrite
    obtain ⟨_, -, _, hv, hvs⟩ := hwrite
    obtain ⟨hhead, htail⟩ := List.forall_mem_cons.1 h
    exact List.forall_mem_cons.2
      ⟨native_of_plain v _ _ _ _ hv hhead, native_of_plainItems vs _ _ _ _ hvs htail⟩

theorem native_of_plainMember : ∀ (m : Scalar τ × Value τ) (around : List Nat) (level : Nat)
    (out mark out' : String), writeMember .line around level out mark m = .ok out' →
    Native [] m.2.plain → Native around m.2
  | (k, v), _, _, _, _, _, hwrite, h => by
    simp only [writeMember] at hwrite
    split at hwrite
    · exact native_of_plain v _ _ _ _ hwrite h
    · cases hwrite

theorem native_of_plainMembers : ∀ (ms : Members τ) (around : List Nat) (level : Nat)
    (out out' : String), writeMembers .line around level out ms = .ok out' →
    (∀ m ∈ Value.plainMembers ms, Native [] m.2) → ∀ m ∈ ms, Native around m.2
  | [], _, _, _, _, _, _ => List.forall_mem_nil _
  | m :: ms, _, _, _, _, hwrite, h => by
    simp only [writeMembers, bind_eq_ok] at hwrite
    obtain ⟨_, hm, hms⟩ := hwrite
    obtain ⟨hhead, htail⟩ := List.forall_mem_cons.1 h
    exact List.forall_mem_cons.2
      ⟨native_of_plainMember m _ _ _ _ _ hm hhead, native_of_plainMembers ms _ _ _ _ hms htail⟩

end

/-! ## What a JSON text reads as is native -/

theorem string?_joined {cs rest : List Char} {s : Letters} (h : string? cs = some (s, rest)) :
    ∃ s', s = Letters.joined s' := by
  have hbody : ∀ (acc : Letters) (cs : List Char), stringBody acc cs = some (s, rest) →
      ∃ s', s = Letters.joined s' := by
    intro acc cs
    fun_induction stringBody acc cs with
    | case1 acc rest =>
      rintro ⟨⟩
      exact ⟨_, rfl⟩
    | case2 _ _ _ _ _ _ _ _ ih => exact ih
    | case4 _ _ _ _ _ _ ih => exact ih
    | case7 _ _ _ _ _ _ _ ih => exact ih
    | _ => exact nofun
  exact hbody [] cs h

/-- What is read at a place is native. -/
def ReadsNative (r : Read (Value τ)) : Prop := ∀ v rest, r = .ok (v, rest) → Native [] v

theorem readsNative_error (e : Problem) : ReadsNative (.error e : Read (Value τ)) := nofun

theorem readsNative_ok {v : Value τ} (h : Native [] v) (rest : List Char) :
    ReadsNative (.ok (v, rest)) := by
  rintro _ _ ⟨⟩
  exact h

theorem native_of_words :
    ∀ w ∈ words, Native [] (.scalar (w.2.map Empty.elim) : Value τ) := by
  intro w hw
  simp only [words, List.mem_cons, List.not_mem_nil, or_false] at hw
  rcases hw with rfl | rfl | rfl | rfl | rfl | rfl
  exacts [.null, .bool _, .bool _, .float trivial, .float trivial, .float trivial]

theorem natAbs_signed (negative : Bool) (n : Nat) :
    (if negative then -(n : Int) else n).natAbs = n := by
  split_ifs <;> omega

theorem readsNative_number (negative : Bool) (cs : List Char) :
    ReadsNative (ofAtom (number negative cs) : Read (Value τ)) := by
  unfold number
  extract_lets whole
  have hwhole : AllDigits whole.1 := by
    unfold whole
    split
    · exact whole_zero.digits
    · exact List.all_eq_true.1 List.all_takeWhile
  clear_value whole
  split
  · exact readsNative_error _
  · rename_i ws rest hne
    obtain ⟨fs, afterPoint⟩ := fraction rest
    obtain ⟨e, after⟩ := exponent afterPoint
    simp only
    split
    · rename_i hshort
      split
      · exact readsNative_error _
      · rename_i hlength
        obtain rfl : fs = [] := List.isEmpty_iff.1 (Bool.and_eq_true_iff.1 hshort).1
        refine readsNative_ok (.int ?_) _
        rw [isTooLong_eq_false_iff, natAbs_signed, List.append_nil]
        have hdigits : (Nat.toDigits 10 (decimalValue ws)).length ≤ ws.length :=
          (Nat.length_toDigits_le_iff (by decide) (List.length_pos_iff.2 hne)).2
            (decimalValue_lt hwhole)
        exact hdigits.trans (not_lt.1 hlength)
    · exact readsNative_ok (.float (Binary64.ofDecimal_proper _ _ _)) _

theorem readsNative_atom (cs : List Char) :
    ReadsNative (ofAtom (atom cs) : Read (Value τ)) := by
  unfold atom
  split
  · rename_i found hfound
    obtain ⟨w, hw, heq⟩ := List.exists_of_findSome?_eq_some hfound
    obtain ⟨rest, -, rfl⟩ := Option.map_eq_some_iff.1 heq
    exact readsNative_ok (native_of_words w hw) rest
  · split
    · exact readsNative_number true _
    · exact readsNative_number false _

/-- A member is one that JSON text can state. -/
structure NativeMember (m : Scalar τ × Value τ) : Prop where
  key : ∃ s, m.1 = .text s ∧ Spelled.Apart s
  value : Native [] m.2

section

variable [DecidableEq τ] {n : Nat}

/-- Members that are set one after another make a native object if each of them is native. -/
theorem native_ofPairs {ps : Members τ} (h : ∀ m ∈ ps, NativeMember m) :
    Native [] (.object (Members.ofPairs ps)) := by
  have htexts : ∀ m ∈ ps, m.1.isText = true := by
    intro m hm
    obtain ⟨s, hs, -⟩ := (h m hm).key
    exact Scalar.isText_iff.2 ⟨s, hs⟩
  refine .object ⟨Members.keyed_ofPairs htexts, fun m hm s hs => ?_⟩ fun m hm => ?_
  · obtain ⟨⟨p, hp, hkey⟩, -⟩ := Members.mem_ofPairs hm
    obtain ⟨t, ht, hapart⟩ := (h p hp).key
    obtain rfl := Scalar.text.inj (ht.symm.trans (hkey.trans hs))
    exact hapart
  · obtain ⟨-, p, hp, hvalue⟩ := Members.mem_ofPairs hm
    exact hvalue ▸ (h p hp).value

theorem readsNative_value (hitems : ∀ cs, ReadsNative (items n [] cs : Read (Value τ)))
    (hmembers : ∀ cs, ReadsNative (members n [] cs : Read (Value τ))) (cs : List Char) :
    ReadsNative (value (n + 1) cs : Read (Value τ)) := by
  rw [value.eq_def]
  simp only
  split
  · split
    · rename_i hread
      obtain ⟨s, rfl⟩ := string?_joined hread
      exact readsNative_ok (.text (Spelled.apart_joined s)) _
    · exact readsNative_error _
  · split
    · exact readsNative_ok (.list (List.forall_mem_nil _)) _
    · exact hitems _
  · split
    · exact readsNative_ok (.object Members.named_nil (List.forall_mem_nil _)) _
    · exact hmembers _
  · exact readsNative_atom _

theorem readsNative_items (hvalue : ∀ cs, ReadsNative (value n cs : Read (Value τ)))
    (hitems : ∀ (acc : List (Value τ)) cs, (∀ v ∈ acc, Native [] v) →
      ReadsNative (items n acc cs)) {acc : List (Value τ)} (hacc : ∀ v ∈ acc, Native [] v)
    (cs : List Char) : ReadsNative (items (n + 1) acc cs) := by
  rw [items]
  split
  · exact readsNative_error _
  · rename_i v rest hv
    have hall := List.forall_mem_cons.2 ⟨hvalue cs v rest hv, hacc⟩
    split
    · exact hitems _ _ hall
    · exact readsNative_ok (.list fun w hw => hall w (List.mem_reverse.1 hw)) _
    · exact readsNative_error _

theorem readsNative_members (hvalue : ∀ cs, ReadsNative (value n cs : Read (Value τ)))
    (hmembers : ∀ (acc : Members τ) cs, (∀ m ∈ acc, NativeMember m) →
      ReadsNative (members n acc cs)) {acc : Members τ} (hacc : ∀ m ∈ acc, NativeMember m)
    (cs : List Char) : ReadsNative (members (n + 1) acc cs) := by
  rw [members.eq_def]
  simp only
  split
  · split
    · exact readsNative_error _
    · rename_i k rest hk
      obtain ⟨k, rfl⟩ := string?_joined hk
      split
      · split
        · exact readsNative_error _
        · rename_i v rest' hv
          have hall : ∀ m ∈ (.text (Spelled.ofLetters k.joined), v) :: acc, NativeMember m :=
            List.forall_mem_cons.2
              ⟨⟨⟨_, rfl, Spelled.apart_joined k⟩, hvalue _ v rest' hv⟩, hacc⟩
          split
          · exact hmembers _ _ hall
          · exact readsNative_ok (native_ofPairs fun m hm => hall m (List.mem_reverse.1 hm)) _
          · exact readsNative_error _
      · exact readsNative_error _
  · exact readsNative_error _

/-- Values, further items and further members are native, at every number of levels. -/
theorem readsNative_levels (n : Nat) : (∀ cs, ReadsNative (value n cs : Read (Value τ))) ∧
    (∀ (acc : List (Value τ)) cs, (∀ v ∈ acc, Native [] v) → ReadsNative (items n acc cs)) ∧
    ∀ (acc : Members τ) cs, (∀ m ∈ acc, NativeMember m) → ReadsNative (members n acc cs) := by
  induction n with
  | zero => exact ⟨fun _ => readsNative_error _, fun _ _ _ => readsNative_error _,
      fun _ _ _ => readsNative_error _⟩
  | succ n ih =>
    obtain ⟨hvalue, hitems, hmembers⟩ := ih
    exact ⟨readsNative_value (fun cs => hitems _ cs (List.forall_mem_nil _))
        (fun cs => hmembers _ cs (List.forall_mem_nil _)),
      fun _ cs hacc => readsNative_items hvalue hitems hacc cs,
      fun _ cs hacc => readsNative_members hvalue hmembers hacc cs⟩

/-- What a JSON text reads as is native. -/
theorem native_of_parse {text : String} (h : parse text = .ok v) : Native [] v := by
  unfold parse at h
  split at h
  · rename_i hread
    split at h
    · obtain rfl := Except.ok.inj h
      exact (readsNative_levels _).1 _ _ _ hread
    · cases h
  · cases h

/-- A value that has a JSON text is native exactly if it comes back from it unchanged. -/
theorem native_iff_recast {text : String} (h : print .line v = .ok text) :
    Native [] v ↔ v.recast = v.plain :=
  ⟨Value.recast_of_native,
    fun heq => native_of_plain v _ _ _ _ h (heq ▸ native_of_parse (parse_print h))⟩

end

end Json

end ApiModels
