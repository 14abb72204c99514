/-
ApiModels.Proofs.Text.Letter — what joining the halves of characters does.

A character beyond the first plane may be written as its halves: they are joined to
it again (`Letters.joined_halves`). A text stays as it is when it is joined exactly if
no low half follows a high one in it (`Letters.joined_eq_iff`), and a text that is
joined to characters of the first plane was made of them
(`Letters.eq_of_joined_eq`). The same is said of any type of texts in letters.
-/
import ApiModels.Text.Letter
import Mathlib.Data.List.Basic

namespace ApiModels

/-! ## Characters as their halves -/

namespace Letter

theorem ofCode?_char (c : Char) : ofCode? c.toNat = some (.char c) := by
  have hvalid : c.toNat < 0xD800 ∨ 0xDFFF < c.toNat ∧ c.toNat < 0x110000 := c.valid
  rw [ofCode?, dif_neg (by omega), dif_neg (by omega), if_pos (by omega), Char.ofNat_toNat]

theorem ofCode?_high (n : Fin 0x400) : ofCode? (0xD800 + n) = some (.high n) := by
  rw [ofCode?, dif_pos (by omega)]
  simp

theorem ofCode?_low (n : Fin 0x400) : ofCode? (0xDC00 + n) = some (.low n) := by
  rw [ofCode?, dif_neg (by omega), dif_pos (by omega)]
  simp

/-- A letter as it is written: a character beyond the first plane as its halves. -/
def halves : Letter → Letters
  | .char c =>
    if c.toNat < 0x10000 then [.char c]
    else [.high (Fin.ofNat 0x400 ((c.toNat - 0x10000) / 0x400)),
      .low (Fin.ofNat 0x400 (c.toNat - 0x10000))]
  | x => [x]

/-- The halves of a character are those of no other. -/
theorem pair_halves {c : Char} (hc : 0x10000 ≤ c.toNat) :
    pair (Fin.ofNat 0x400 ((c.toNat - 0x10000) / 0x400)) (Fin.ofNat 0x400 (c.toNat - 0x10000)) =
      c := by
  have hvalid : c.toNat < 0xD800 ∨ 0xDFFF < c.toNat ∧ c.toNat < 0x110000 := c.valid
  have hcode : 0x10000 + (c.toNat - 0x10000) / 0x400 % 0x400 * 0x400 +
      (c.toNat - 0x10000) % 0x400 = c.toNat := by
    omega
  exact (congrArg Char.ofNat hcode).trans (Char.ofNat_toNat c)

/-- The character of two halves lies beyond the first plane. -/
theorem le_toNat_pair (a b : Fin 0x400) : 0x10000 ≤ (pair a b).toNat := by
  have hvalid : Nat.isValidChar (0x10000 + a * 0x400 + b) := .inr (by omega)
  have hcode : (pair a b).toNat = 0x10000 + a * 0x400 + b := by
    rw [pair, Char.ofNat, dif_pos hvalid]
    rfl
  omega

end Letter

namespace Letters

theorem joined_cons {x : Letter} {s : Letters}
    (h : ∀ a b rest, x = .high a → s = .low b :: rest → False) : joined (x :: s) = x :: joined s :=
  joined.eq_2 x s h

theorem joined_high_low (a b : Fin 0x400) (s : Letters) :
    joined (.high a :: .low b :: s) = .char (Letter.pair a b) :: joined s := rfl

/-- Halves start with a low one only if they are those of a low one. -/
theorem low_of_halves {s rest : Letters} {b : Fin 0x400}
    (h : s.flatMap Letter.halves = .low b :: rest) : ∃ rest', s = .low b :: rest' := by
  cases s with
  | nil => cases h
  | cons x s =>
    rw [List.flatMap_cons] at h
    cases x with
    | char c =>
      rw [Letter.halves] at h
      split at h <;> cases h
    | high n => cases h
    | low n =>
      cases h
      exact ⟨s, rfl⟩

/-- A text is joined to the same, whether its characters are written as their halves or not. -/
theorem joined_halves (s : Letters) : joined (s.flatMap Letter.halves) = s.joined := by
  induction s using joined.induct with
  | case1 a b rest ih => exact congrArg (Letter.char (Letter.pair a b) :: ·) ih
  | case2 x rest hx ih =>
    rw [joined_cons hx, List.flatMap_cons, ← ih]
    have hstays : joined (x :: rest.flatMap Letter.halves) =
        x :: joined (rest.flatMap Letter.halves) := by
      refine joined_cons fun a b tail hhigh hlow => ?_
      obtain ⟨tail', hrest⟩ := low_of_halves hlow
      exact hx a b tail' hhigh hrest
    cases x with
    | char c =>
      rw [Letter.halves]
      split
      · exact hstays
      · rename_i hc
        rw [List.cons_append, List.cons_append, joined_high_low,
          Letter.pair_halves (Nat.not_lt.1 hc)]
        rfl
    | high n => exact hstays
    | low n => exact hstays
  | case3 => rfl

/-- No low half of a character follows a high one. -/
def Apart (s : Letters) : Prop := s.IsChain fun x y => ∀ a b, x = .high a → y ≠ .low b

theorem apart_cons {x : Letter} {s : Letters} :
    Apart (x :: s) ↔ (∀ a b rest, x = .high a → s = .low b :: rest → False) ∧ Apart s := by
  unfold Apart
  cases s with
  | nil => simp
  | cons y s =>
    rw [List.isChain_cons_cons]
    refine and_congr_left fun _ => ⟨?_, ?_⟩
    · rintro h a b rest rfl heq
      exact h a b rfl (List.cons.inj heq).1
    · rintro h a b rfl rfl
      exact h a b s rfl rfl

/-- Nothing is to be joined exactly where halves stay apart. -/
theorem joined_eq_iff {s : Letters} : s.joined = s ↔ s.Apart := by
  induction s using joined.induct with
  | case1 a b rest ih =>
    rw [joined_high_low, apart_cons]
    constructor
    · rintro ⟨⟩
    · exact fun h => (h.1 a b rest rfl rfl).elim
  | case2 x rest hx ih =>
    rw [joined_cons hx, apart_cons, List.cons_eq_cons, ih]
    exact ⟨fun h => ⟨hx, h.2⟩, fun h => ⟨rfl, h.2⟩⟩
  | case3 => exact ⟨fun _ => .nil, fun _ => rfl⟩

/-- Characters of the first plane are no pairs of halves that have been joined. -/
theorem eq_of_joined_eq {s : Letters} : ∀ {cs : List Char}, (∀ c ∈ cs, c.toNat < 0x10000) →
    s.joined = cs.map .char → s = cs.map .char := by
  induction s using joined.induct with
  | case1 a b rest ih =>
    rintro (_ | ⟨c, cs⟩) hcs h
    · cases h
    · obtain ⟨hc, -⟩ := List.forall_mem_cons.1 hcs
      obtain rfl := Letter.char.inj (List.cons.inj h).1
      exact absurd (Letter.le_toNat_pair a b) (Nat.not_le.2 hc)
  | case2 x rest hx ih =>
    rintro (_ | ⟨c, cs⟩) hcs h
    · rw [joined_cons hx] at h
      cases h
    · rw [joined_cons hx] at h
      obtain ⟨hhead, htail⟩ := List.cons.inj h
      rw [List.map_cons, ← hhead, ih (List.forall_mem_cons.1 hcs).2 htail]
  | case3 => exact fun _ h => h

theorem ofString_inj {s t : String} (h : ofString s = ofString t) : s = t := by
  rw [← toText_ofString s, h, toText_ofString]

end Letters

namespace Spelled

variable {τ : Type} [Spelled τ]

/-- The halves in a text stay apart. -/
def Apart (s : τ) : Prop := (letters s).Apart

theorem joined_eq_iff {s : τ} : joined s = s ↔ Apart s := by
  rw [Apart, ← Letters.joined_eq_iff, joined]
  refine ⟨fun h => ?_, fun h => ?_⟩
  · rw [← letters_joined s, h]
  · rw [h, ofLetters_letters]

theorem apart_joined (s : Letters) : Apart (ofLetters s.joined : τ) :=
  Letters.joined_eq_iff.1 (joined_letters s)

theorem apart_text (s : String) : Apart (text s : τ) := by
  rw [Apart, text, letters_ofString, ← Letters.joined_eq_iff, Letters.joined_ofString]

theorem joined_text (s : String) : joined (text s : τ) = text s :=
  joined_eq_iff.2 (apart_text s)

theorem text_inj {s t : String} (h : (text s : τ) = text t) : s = t := by
  have hletters := congrArg letters h
  rw [text, text, letters_ofString, letters_ofString] at hletters
  exact Letters.ofString_inj hletters

/-- No halves are joined to characters of the first plane. -/
theorem eq_text_of_joined {t : τ} {s : String} (hs : ∀ c ∈ s.toList, c.toNat < 0x10000)
    (h : joined t = text s) : t = text s := by
  have hletters := congrArg letters h
  rw [joined, letters_joined, text, letters_ofString] at hletters
  rw [text, Letters.ofString, ← Letters.eq_of_joined_eq hs hletters, ofLetters_letters]

end Spelled

end ApiModels
