/-
ApiModels.Proofs.Json.RoundTrip — what the JSON text of a value reads as.

A value comes back from its JSON text, except that a pair comes back as a list,
a key as a text, a text with its halves joined, and of keys that have become one
the last value stays (`Value.recast`); a double comes back as the one that its
digits give (`parse_print`).

The text of a value is made of the texts of its parts, and each of them is read
alone (`Reads`): the induction is on the value that is written, and says that it
adds a piece that reads as what the value is recast to (`writeValue_reads`).
-/
import ApiModels.Proofs.Json.Scalar

namespace ApiModels

variable {τ : Type}

/-! ## Values as their JSON text reads -/

section

variable [Spelled τ]

namespace Json

/-- The text that stands for a key. -/
def keyText : Scalar τ → τ
  | .text s => s
  | k => Spelled.text ((scalar k).toOption.getD "")

/-- A scalar as its JSON text reads; dates and bytes have none. -/
def recastScalar : Scalar τ → Value τ
  | .float x => .float x.reread
  | .text s => .text (Spelled.joined s)
  | .pair a b => .list [recastScalar a, recastScalar b]
  | .date _ | .bytes _ => .null
  | s => .scalar s

end Json

namespace Value

variable [DecidableEq τ]

mutual

/-- A value as its JSON text reads; sets have none. -/
def recast : Value τ → Value τ
  | .scalar s => Json.recastScalar s
  | .list vs => .list (recastItems vs)
  | .object ms => .object (Members.ofPairs (recastMembers ms))
  | .pair a b => .list [recast a, recast b]
  | .set _ => .null
  | .knot _ v => recast v

/-- The items of a list as their JSON texts read. -/
def recastItems : List (Value τ) → List (Value τ)
  | [] => []
  | v :: vs => recast v :: recastItems vs

/-- The members of an object as their JSON texts read. -/
def recastMembers : Members τ → Members τ
  | [] => []
  | (k, v) :: ms => (.text (Spelled.joined (Json.keyText k)), recast v) :: recastMembers ms

end

end Value

end

namespace Json

variable {n : Nat} {t rest : List Char} {ts : List (List Char)} {out out' : String}

/-! ## What has been written -/

theorem bind_eq_ok {x : Writing} {f : String → Writing} :
    (x >>= f) = .ok out ↔ ∃ mid, x = .ok mid ∧ f mid = .ok out := by
  cases x with
  | error e => simp [bind, Except.bind]
  | ok a => simp [bind, Except.bind]

theorem write_eq_ok {part : Result String} (h : write out part = .ok out') :
    ∃ t, part = .ok t ∧ out' = out ++ t := by
  cases part with
  | error e => cases h
  | ok t => exact ⟨t, rfl, (Except.ok.inj h).symm⟩

theorem writeMark_eq_ok {mark : String} {s : Scalar τ} (h : writeMark out mark s = .ok out') :
    out' = out ++ mark := by
  cases s with
  | int n =>
    simp only [writeMark] at h
    split at h
    · cases h
    · exact (Except.ok.inj h).symm
  | _ => exact (Except.ok.inj h).symm

theorem writeMarkOf_eq_ok {mark : String} {v : Value τ} (h : writeMarkOf out mark v = .ok out') :
    out' = out ++ mark := by
  cases v with
  | scalar s => exact writeMark_eq_ok h
  | _ => exact (Except.ok.inj h).symm

/-! ## Why writing stops -/

/-- Why a value has no JSON text. -/
inductive Unwritable : Failure → Prop where
  | wrongShape : Unwritable .wrongShape
  | tooManyDigits : Unwritable (.tooManyDigits none)
  | circular : Unwritable .circular

/-- Writing stops, if at all, because a part has no JSON text. -/
def Stops (w : Writing) : Prop := ∀ stop, w = .error stop → Unwritable stop.cause

/-- A part has a JSON text or is unwritable. -/
def MayLack (part : Result String) : Prop := ∀ cause, part = .error cause → Unwritable cause

theorem stops_ok (out : String) : Stops (.ok out) := nofun

theorem stops_error {cause : Failure} (h : Unwritable cause) (out : String) :
    Stops (.error ⟨out, cause⟩) := by
  rintro _ ⟨⟩
  exact h

theorem mayLack_ok (t : String) : MayLack (.ok t) := nofun

theorem mayLack_error {cause : Failure} (h : Unwritable cause) : MayLack (.error cause) := by
  rintro _ ⟨⟩
  exact h

theorem Stops.bind {x : Writing} {f : String → Writing} (hx : Stops x) (hf : ∀ mid, Stops (f mid)) :
    Stops (x >>= f) := by
  cases x with
  | ok mid => exact hf mid
  | error stop => exact hx

theorem stops_write (out : String) {part : Result String} (h : MayLack part) :
    Stops (write out part) := by
  cases part with
  | ok t => exact stops_ok _
  | error cause => exact stops_error (h cause rfl) out

theorem stops_writeMark (out mark : String) (s : Scalar τ) : Stops (writeMark out mark s) := by
  cases s with
  | int n =>
    rw [writeMark]
    split
    · exact stops_error .tooManyDigits out
    · exact stops_ok _
  | _ => exact stops_ok _

theorem stops_writeMarkOf (out mark : String) (v : Value τ) : Stops (writeMarkOf out mark v) := by
  cases v with
  | scalar s => exact stops_writeMark out mark s
  | _ => exact stops_ok _

/-- What stands for values without a JSON form is there or is unwritable. -/
def Layout.Tells (layout : Layout τ) : Prop := ∀ v, MayLack (layout.tell v)

theorem tells_line : (Layout.line : Layout τ).Tells := fun _ => mayLack_error .wrongShape

variable [Spelled τ]

theorem mayLack_scalar (s : Scalar τ) : MayLack (scalar s) := by
  cases s with
  | int n =>
    rw [scalar]
    split
    · exact mayLack_error .tooManyDigits
    · exact mayLack_ok _
  | date d => exact mayLack_error .wrongShape
  | bytes bs => exact mayLack_error .wrongShape
  | pair a b => exact mayLack_error .wrongShape
  | _ => exact mayLack_ok _

theorem MayLack.map_string {part : Result String} (h : MayLack part) :
    MayLack (part.map string) := by
  cases part with
  | ok t => exact mayLack_ok _
  | error cause => exact mayLack_error (h cause rfl)

theorem mayLack_key (k : Scalar τ) : MayLack (key k) := by
  unfold key
  split
  · exact mayLack_ok _
  · exact (mayLack_scalar k).map_string

variable {layout : Layout τ}

theorem mayLack_layoutScalar (hlayout : layout.Tells) (s : Scalar τ) :
    MayLack (layout.scalar s) := by
  unfold Layout.scalar
  split
  · exact (hlayout _).map_string
  · exact (hlayout _).map_string
  · exact mayLack_scalar s

theorem stops_writeScalar (hlayout : layout.Tells) (s : Scalar τ) :
    ∀ (level : Nat) (out : String), Stops (writeScalar layout level out s) := by
  induction s with
  | pair a b iha ihb =>
    intro level out
    exact (stops_writeMark _ _ a).bind fun _ => (iha _ _).bind fun _ =>
      (stops_writeMark _ _ b).bind fun _ => (ihb _ _).bind fun _ => stops_ok _
  | _ => exact fun _ out => stops_write out (mayLack_layoutScalar hlayout _)

mutual

theorem stops_writeValue (hlayout : layout.Tells) :
    ∀ (v : Value τ) (around : List Nat) (level : Nat) (out : String),
      Stops (writeValue layout around level out v)
  | .scalar s, _, level, out => stops_writeScalar hlayout s level out
  | .list [], _, _, _ => stops_ok _
  | .list (v :: vs), _, _, _ =>
    (stops_writeMarkOf _ _ v).bind fun _ => (stops_writeValue hlayout v _ _ _).bind fun _ =>
      (stops_writeItems hlayout vs _ _ _).bind fun _ => stops_ok _
  | .object [], _, _, _ => stops_ok _
  | .object (m :: ms), _, _, _ =>
    (stops_writeMember hlayout m _ _ _ _).bind fun _ =>
      (stops_writeMembers hlayout ms _ _ _).bind fun _ => stops_ok _
  | .pair a b, _, _, _ =>
    (stops_writeMarkOf _ _ a).bind fun _ => (stops_writeValue hlayout a _ _ _).bind fun _ =>
      (stops_writeMarkOf _ _ b).bind fun _ => (stops_writeValue hlayout b _ _ _).bind fun _ =>
        stops_ok _
  | .set ss, _, _, out => stops_write out (hlayout (.set ss)).map_string
  | .knot n v, around, level, out => by
    rw [writeValue]
    split
    · exact stops_error .circular out
    · exact stops_writeValue hlayout v _ _ _

theorem stops_writeItems (hlayout : layout.Tells) :
    ∀ (vs : List (Value τ)) (around : List Nat) (level : Nat) (out : String),
      Stops (writeItems layout around level out vs)
  | [], _, _, _ => stops_ok _
  | v :: vs, _, _, _ =>
    (stops_writeMarkOf _ _ v).bind fun _ => (stops_writeValue hlayout v _ _ _).bind fun _ =>
      stops_writeItems hlayout vs _ _ _

theorem stops_writeMember (hlayout : layout.Tells) :
    ∀ (m : Scalar τ × Value τ) (around : List Nat) (level : Nat) (out mark : String),
      Stops (writeMember layout around level out mark m)
  | (k, v), _, _, _, _ => by
    rw [writeMember]
    split
    · exact stops_writeValue hlayout v _ _ _
    · rename_i cause hkey
      exact stops_error (mayLack_key k cause hkey) _

theorem stops_writeMembers (hlayout : layout.Tells) :
    ∀ (ms : Members τ) (around : List Nat) (level : Nat) (out : String),
      Stops (writeMembers layout around level out ms)
  | [], _, _, _ => stops_ok _
  | m :: ms, _, _, _ =>
    (stops_writeMember hlayout m _ _ _ _).bind fun _ => stops_writeMembers hlayout ms _ _ _

end

/-- A value lacks a JSON text in any layout only for a part that has none. -/
theorem stops_print (hlayout : layout.Tells) (v : Value τ) : Stops (print layout v) :=
  stops_writeValue hlayout v _ _ _

/-! ## Texts of parts -/

/-- Texts one after the other, each behind a comma. -/
def separated (ts : List (List Char)) : List Char := ts.flatMap fun t => ',' :: ' ' :: t

theorem length_separated_cons (t : List Char) (ts : List (List Char)) :
    (separated (t :: ts)).length = t.length + (separated ts).length + 2 := by
  simp [separated, Nat.add_assoc]

theorem separated_cons_append (t : List Char) (ts : List (List Char)) (cs : List Char) :
    separated (t :: ts) ++ cs = ',' :: ' ' :: (t ++ (separated ts ++ cs)) := by
  simp [separated]

/-- The text of a key, a colon, and the text of a value. -/
def memberText (s : τ) (t : List Char) : List Char :=
  '"' :: ((Spelled.letters s).flatMap escape ++ '"' :: ':' :: ' ' :: t)

theorem length_memberText (s : τ) (t : List Char) : t.length < (memberText s t).length := by
  simp [memberText]
  omega

theorem memberText_append (s : τ) (t rest : List Char) : memberText s t ++ rest =
    '"' :: ((Spelled.letters s).flatMap escape ++ '"' :: (':' :: ' ' :: (t ++ rest))) := by
  simp [memberText]

/-- The text of a key is the text of its recast. -/
theorem key_eq_ok {k : Scalar τ} {t : String} (h : key k = .ok t) : t = string (keyText k) := by
  have hother : ∀ s : Result String, s.map string = .ok t →
      t = string (Spelled.text (s.toOption.getD "") : τ) := by
    intro s hs
    cases s with
    | error e => cases hs
    | ok t' =>
      rw [string, Spelled.text, Spelled.letters_ofString]
      exact (Except.ok.inj hs).symm
  unfold key at h
  split at h
  · exact (Except.ok.inj h).symm
  · rename_i hno
    rw [keyText]
    · exact hother _ h
    · exact hno

variable [DecidableEq τ] {v : Value τ} {vs : List (Value τ)}

/-! ## Lists and objects from the texts of their parts -/

theorem delimited_cons {c : Char} (h : c = ',' ∨ c = ']' ∨ c = '\x7d') : Delimited (c :: rest) := by
  rintro _ _ ⟨⟩
  exact h

/-- Items are read one after the other up to the closing bracket. -/
theorem items_separated (h : List.Forall₂ Reads ts vs) : ∀ {n : Nat} {acc : List (Value τ)}
    {t : List Char} {v : Value τ}, Reads t v → t.length + (separated ts).length < n →
    items n acc (t ++ (separated ts ++ ']' :: rest)) =
      .ok (.list (acc.reverse ++ v :: vs), rest) := by
  induction h with
  | nil =>
    rintro (_ | n) acc t v ht hn
    · cases hn
    · have hread := ht n (']' :: rest) (by omega) (delimited_cons (.inr (.inl rfl)))
      have hclose : skipBlanks (']' :: rest) = ']' :: rest := rfl
      rw [show separated [] ++ ']' :: rest = ']' :: rest from rfl, items, hread]
      simp only [hclose, List.reverse_cons]
  | @cons t' v' ts vs ht' h ih =>
    rintro (_ | n) acc t v ht hn
    · cases hn
    · have hlength := length_separated_cons t' ts
      have hread := ht n (',' :: ' ' :: (t' ++ (separated ts ++ ']' :: rest))) (by omega)
        (delimited_cons (.inl rfl))
      have hcomma : skipBlanks (',' :: ' ' :: (t' ++ (separated ts ++ ']' :: rest))) =
          ',' :: ' ' :: (t' ++ (separated ts ++ ']' :: rest)) := rfl
      have hblanks : skipBlanks (' ' :: (t' ++ (separated ts ++ ']' :: rest))) =
          t' ++ (separated ts ++ ']' :: rest) := ht'.skipBlanks _
      have hrest := @ih n (v :: acc) _ _ ht' (by omega)
      rw [separated_cons_append, items, hread]
      simp only [hcomma, hblanks, hrest, List.reverse_cons, List.append_assoc,
        List.singleton_append]

theorem reads_empty_list : Reads ['[', ']'] (.list [] : Value τ) := by
  rintro (_ | n) rest hn _
  · cases hn
  · rfl

theorem reads_empty_object : Reads ['\x7b', '\x7d'] (.object [] : Value τ) := by
  rintro (_ | n) rest hn _
  · cases hn
  · rfl

/-- A list reads as its items read. -/
theorem reads_list (ht : Reads t v) (h : List.Forall₂ Reads ts vs) :
    Reads ('[' :: (t ++ (separated ts ++ [']']))) (.list (v :: vs)) := by
  intro n rest hn _
  have htext : '[' :: (t ++ (separated ts ++ [']'])) ++ rest =
      '[' :: (t ++ (separated ts ++ ']' :: rest)) := by
    simp
  have hblanks := ht.skipBlanks (separated ts ++ ']' :: rest)
  rw [htext]
  cases n with
  | zero => cases hn
  | succ n =>
    simp only [List.length_cons, List.length_append] at hn
    have hitems : items n [] (t ++ (separated ts ++ ']' :: rest)) = .ok (.list (v :: vs), rest) :=
      items_separated h ht (by omega)
    rw [value, hblanks]
    split
    · rename_i heq
      obtain ⟨c, cs, rfl, hc⟩ := ht.start
      rw [List.cons_append] at heq
      simp [(List.cons.inj heq).1] at hc
    · exact hitems

/-- A text stands for a member: its value stands behind the text of its key. -/
def ReadsMember (t : List Char) (m : Scalar τ × Value τ) : Prop :=
  ∃ s t', t = memberText s t' ∧ m.1 = .text (Spelled.joined s) ∧ Reads t' m.2

/-- Behind a member and a comma others are read. -/
theorem members_next (acc : Members τ) (s : τ) (ht : Reads t v)
    (hn : t.length ≤ n) : members (n + 1) acc (memberText s t ++ ',' :: rest) =
      members n ((.text (Spelled.joined s), v) :: acc) (skipBlanks rest) := by
  have hcolon : skipBlanks (':' :: ' ' :: (t ++ ',' :: rest)) = ':' :: ' ' :: (t ++ ',' :: rest) :=
    rfl
  have hspace : skipBlanks (' ' :: (t ++ ',' :: rest)) = t ++ ',' :: rest := ht.skipBlanks _
  have hread := ht n (',' :: rest) hn (delimited_cons (.inl rfl))
  have hcomma : skipBlanks (',' :: rest) = ',' :: rest := rfl
  rw [memberText_append, members, string?_string]
  simp only [hcolon, hspace, hread, hcomma, Spelled.joined]

/-- The last member stands before the closing bracket. -/
theorem members_last (acc : Members τ) (s : τ) (ht : Reads t v)
    (hn : t.length ≤ n) : members (n + 1) acc (memberText s t ++ '\x7d' :: rest) =
      .ok (.object (Members.ofPairs ((.text (Spelled.joined s), v) :: acc).reverse), rest) := by
  have hcolon : skipBlanks (':' :: ' ' :: (t ++ '\x7d' :: rest)) =
      ':' :: ' ' :: (t ++ '\x7d' :: rest) := rfl
  have hspace : skipBlanks (' ' :: (t ++ '\x7d' :: rest)) = t ++ '\x7d' :: rest :=
    ht.skipBlanks _
  have hread := ht n ('\x7d' :: rest) hn (delimited_cons (.inr (.inr rfl)))
  have hclose : skipBlanks ('\x7d' :: rest) = '\x7d' :: rest := rfl
  rw [memberText_append, members, string?_string]
  simp only [hcolon, hspace, hread, hclose, Spelled.joined]

/-- Members are read one after the other up to the closing bracket. -/
theorem members_separated {ms : Members τ} (h : List.Forall₂ ReadsMember ts ms) :
    ∀ {n : Nat} {acc : Members τ} {t : List Char} {m : Scalar τ × Value τ},
    ReadsMember t m → t.length + (separated ts).length < n →
    members n acc (t ++ (separated ts ++ '\x7d' :: rest)) =
      .ok (.object (Members.ofPairs (acc.reverse ++ m :: ms)), rest) := by
  induction h with
  | nil =>
    rintro (_ | n) acc _ ⟨_, v⟩ ⟨s, t, rfl, rfl, ht⟩ hn
    · cases hn
    · have hlength := length_memberText s t
      have hread : members (n + 1) acc (memberText s t ++ '\x7d' :: rest) = _ :=
        members_last acc s ht (by omega)
      rw [List.reverse_cons] at hread
      exact hread
  | @cons t' m' ts ms ht' h ih =>
    rintro (_ | n) acc _ ⟨_, v⟩ ⟨s, t, rfl, rfl, ht⟩ hn
    · cases hn
    · have hlength := length_memberText s t
      have hlength' := length_separated_cons t' ts
      have hrest := @ih n ((.text (Spelled.joined s), v) :: acc) _ _ ht' (by omega)
      have hblanks : skipBlanks (' ' :: (t' ++ (separated ts ++ '\x7d' :: rest))) =
          t' ++ (separated ts ++ '\x7d' :: rest) := by
        obtain ⟨s', t', rfl, -, -⟩ := ht'
        rfl
      rw [separated_cons_append, members_next acc s ht (by omega), hblanks, hrest]
      simp

/-- An object reads as its members read. -/
theorem reads_object {m : Scalar τ × Value τ} {ms : Members τ} (ht : ReadsMember t m)
    (h : List.Forall₂ ReadsMember ts ms) :
    Reads ('\x7b' :: (t ++ (separated ts ++ ['\x7d']))) (.object (Members.ofPairs (m :: ms))) := by
  intro n rest hn _
  have htext : '\x7b' :: (t ++ (separated ts ++ ['\x7d'])) ++ rest =
      '\x7b' :: (t ++ (separated ts ++ '\x7d' :: rest)) := by
    simp
  rw [htext]
  cases n with
  | zero => cases hn
  | succ n =>
    simp only [List.length_cons, List.length_append] at hn
    have hmembers : members n [] (t ++ (separated ts ++ '\x7d' :: rest)) =
        .ok (.object (Members.ofPairs (m :: ms)), rest) :=
      members_separated h ht (by omega)
    obtain ⟨s, t', rfl, hkey, ht'⟩ := ht
    exact hmembers

/-! ## What writing adds -/

/-- Writing has added a piece that stands for a value. -/
def Wrote (out out' : String) (v : Value τ) : Prop :=
  ∃ t, out'.toList = out.toList ++ t ∧ Reads t v

/-- The text of a scalar that is no pair reads as what it is recast to. -/
theorem reads_scalar {s : Scalar τ} {t : String} (h : scalar s = .ok t) :
    Reads t.toList (recastScalar s) := by
  cases s with
  | null => exact Except.ok.inj h ▸ reads_words ("null", .null) (by simp [words])
  | bool b =>
    cases b with
    | false => exact Except.ok.inj h ▸ reads_words ("false", .bool false) (by simp [words])
    | true => exact Except.ok.inj h ▸ reads_words ("true", .bool true) (by simp [words])
  | int n =>
    simp only [scalar] at h
    split at h
    · cases h
    · rename_i hn
      exact Except.ok.inj h ▸ reads_int (Bool.not_eq_true _ ▸ hn)
  | float x => exact Except.ok.inj h ▸ reads_float x
  | text s =>
    obtain rfl := Except.ok.inj h
    exact reads_string s
  | date d => cases h
  | bytes bs => cases h
  | pair a b => cases h

/-- Writing a scalar adds what reads as its recast. -/
theorem writeScalar_wrote (s : Scalar τ) : ∀ {level : Nat} {out out' : String},
    writeScalar .line level out s = .ok out' → Wrote out out' (recastScalar s) := by
  induction s with
  | pair a b iha ihb =>
    intro level out out' h
    simp only [writeScalar, bind_eq_ok] at h
    obtain ⟨_, hopen, _, ha, _, hcomma, _, hb, hclose⟩ := h
    obtain rfl := writeMark_eq_ok hopen
    obtain ⟨ta, hta, hreada⟩ := iha ha
    obtain rfl := writeMark_eq_ok hcomma
    obtain ⟨tb, htb, hreadb⟩ := ihb hb
    obtain rfl := Except.ok.inj hclose
    refine ⟨_, ?_, reads_list hreada (.cons hreadb .nil)⟩
    simp [hta, htb, separated, Layout.lineBreak, Layout.separator, Layout.line]
  | date d => rintro _ _ _ ⟨⟩
  | bytes bs => rintro _ _ _ ⟨⟩
  | _ =>
    intro level out out' h
    obtain ⟨t, ht, rfl⟩ := write_eq_ok h
    exact ⟨t.toList, String.toList_append, reads_scalar ht⟩

mutual

/-- Writing a value adds what reads as its recast. -/
theorem writeValue_wrote : ∀ (v : Value τ) (around : List Nat) (level : Nat) (out out' : String),
    writeValue .line around level out v = .ok out' → Wrote out out' v.recast
  | .scalar s, _, _, _, _, h => writeScalar_wrote s h
  | .list [], _, _, out, _, h => by
    obtain rfl := Except.ok.inj h
    exact ⟨['[', ']'], String.toList_append, reads_empty_list⟩
  | .list (v :: vs), _, _, _, _, h => by
    simp only [writeValue, bind_eq_ok] at h
    obtain ⟨_, hopen, _, hv, _, hvs, hclose⟩ := h
    obtain rfl := writeMarkOf_eq_ok hopen
    obtain ⟨t, ht, hread⟩ := writeValue_wrote v _ _ _ _ hv
    obtain ⟨ts, hts, hreads⟩ := writeItems_wrote vs _ _ _ _ hvs
    obtain rfl := Except.ok.inj hclose
    refine ⟨_, ?_, reads_list hread hreads⟩
    simp [ht, hts, Layout.lineBreak, Layout.line]
  | .object [], _, _, _, _, h => by
    obtain rfl := Except.ok.inj h
    exact ⟨['\x7b', '\x7d'], String.toList_append, reads_empty_object⟩
  | .object (m :: ms), _, _, _, _, h => by
    simp only [writeValue, bind_eq_ok] at h
    obtain ⟨_, hm, _, hms, hclose⟩ := h
    obtain ⟨t, ht, hread⟩ := writeMember_wrote m _ _ _ _ _ hm
    obtain ⟨ts, hts, hreads⟩ := writeMembers_wrote ms _ _ _ _ hms
    obtain rfl := Except.ok.inj hclose
    refine ⟨_, ?_, reads_object hread hreads⟩
    simp [ht, hts, Layout.lineBreak, Layout.line]
  | .pair a b, _, _, _, _, h => by
    simp only [writeValue, bind_eq_ok] at h
    obtain ⟨_, hopen, _, ha, _, hcomma, _, hb, hclose⟩ := h
    obtain rfl := writeMarkOf_eq_ok hopen
    obtain ⟨ta, hta, hreada⟩ := writeValue_wrote a _ _ _ _ ha
    obtain rfl := writeMarkOf_eq_ok hcomma
    obtain ⟨tb, htb, hreadb⟩ := writeValue_wrote b _ _ _ _ hb
    obtain rfl := Except.ok.inj hclose
    refine ⟨_, ?_, reads_list hreada (.cons hreadb .nil)⟩
    simp [hta, htb, separated, Layout.lineBreak, Layout.separator, Layout.line]
  | .set _, _, _, _, _, h => by
    obtain ⟨t, ht, -⟩ := write_eq_ok h
    cases ht
  | .knot n v, around, _, _, _, h => by
    simp only [writeValue] at h
    split at h
    · cases h
    · exact writeValue_wrote v _ _ _ _ h

/-- Writing further items adds what reads as their recasts. -/
theorem writeItems_wrote : ∀ (vs : List (Value τ)) (around : List Nat) (level : Nat)
    (out out' : String), writeItems .line around level out vs = .ok out' →
    ∃ ts, out'.toList = out.toList ++ separated ts ∧
      List.Forall₂ Reads ts (Value.recastItems vs)
  | [], _, _, _, _, h => by
    obtain rfl := Except.ok.inj h
    exact ⟨[], by simp [separated], .nil⟩
  | v :: vs, _, _, _, _, h => by
    simp only [writeItems, bind_eq_ok] at h
    obtain ⟨_, hcomma, _, hv, hvs⟩ := h
    obtain rfl := writeMarkOf_eq_ok hcomma
    obtain ⟨t, ht, hread⟩ := writeValue_wrote v _ _ _ _ hv
    obtain ⟨ts, hts, hreads⟩ := writeItems_wrote vs _ _ _ _ hvs
    refine ⟨t :: ts, ?_, .cons hread hreads⟩
    simp [ht, hts, separated, Layout.separator, Layout.line]

/-- Writing a member adds what reads as its key and value recast. -/
theorem writeMember_wrote : ∀ (m : Scalar τ × Value τ) (around : List Nat) (level : Nat)
    (out mark out' : String), writeMember .line around level out mark m = .ok out' →
    ∃ t, out'.toList = out.toList ++ mark.toList ++ t ∧
      ReadsMember t (.text (Spelled.joined (keyText m.1)), m.2.recast)
  | (k, v), _, _, _, _, _, h => by
    simp only [writeMember] at h
    split at h
    · rename_i hkey
      obtain rfl := key_eq_ok hkey
      obtain ⟨t, ht, hread⟩ := writeValue_wrote v _ _ _ _ h
      refine ⟨memberText (keyText k) t, ?_, _, t, rfl, rfl, hread⟩
      simp [ht, memberText, string]
    · cases h

/-- Writing further members adds what reads as them recast. -/
theorem writeMembers_wrote : ∀ (ms : Members τ) (around : List Nat) (level : Nat)
    (out out' : String), writeMembers .line around level out ms = .ok out' →
    ∃ ts, out'.toList = out.toList ++ separated ts ∧
      List.Forall₂ ReadsMember ts (Value.recastMembers ms)
  | [], _, _, _, _, h => by
    obtain rfl := Except.ok.inj h
    exact ⟨[], by simp [separated], .nil⟩
  | m :: ms, _, _, _, _, h => by
    simp only [writeMembers, bind_eq_ok] at h
    obtain ⟨_, hm, hms⟩ := h
    obtain ⟨t, ht, hread⟩ := writeMember_wrote m _ _ _ _ _ hm
    obtain ⟨ts, hts, hreads⟩ := writeMembers_wrote ms _ _ _ _ hms
    refine ⟨t :: ts, ?_, .cons hread hreads⟩
    simp [ht, hts, separated, Layout.separator, Layout.line]

end

/-- A value that has a JSON text is read from it as its recast. -/
theorem parse_print {text : String} (h : print .line v = .ok text) : parse text = .ok v.recast := by
  obtain ⟨t, ht, hread⟩ := writeValue_wrote v _ _ _ _ h
  rw [String.toList_empty, List.nil_append] at ht
  subst ht
  have hblanks := hread.skipBlanks []
  have hlength : text.toList.length ≤ 2 * text.length + 2 := by
    rw [String.length_toList]
    omega
  have hfound := hread _ [] hlength delimited_nil
  rw [List.append_nil] at hblanks hfound
  rw [parse, hblanks, hfound]
  rfl

end Json

end ApiModels
