/-
ApiModels.Text.Letter — texts with halves of characters.

A character beyond the first plane has two halves, and a notation that writes
characters as codes may write one half alone. So what a document states as a text
is a row of letters: characters, and halves of characters. Two halves that follow
each other are not the character whose halves they are, but may become it
(`Letters.joined`).

`Spelled` says of a type that its elements are texts in letters. Those of `Letters`
are the letters themselves. A `String` has no halves: one that is not joined is
replaced.
-/
namespace ApiModels

/-- A character, or the high or the low half of one beyond the first plane. -/
inductive Letter where
  | char (c : Char)
  | high (n : Fin 0x400)
  | low (n : Fin 0x400)
  deriving DecidableEq, Repr

/-- A text in letters. -/
abbrev Letters := List Letter

namespace Letter

/-- The letter with a code. -/
def ofCode? (n : Nat) : Option Letter :=
  if h : 0xD800 ≤ n ∧ n < 0xDC00 then some (.high ⟨n - 0xD800, by omega⟩)
  else if h : 0xDC00 ≤ n ∧ n < 0xE000 then some (.low ⟨n - 0xDC00, by omega⟩)
  else if n ≤ 0x10FFFF then some (.char (Char.ofNat n))
  else none

/-- The character of a high and a low half. -/
def pair (high low : Fin 0x400) : Char :=
  Char.ofNat (0x10000 + high * 0x400 + low)

/-- A letter as a character; one for what is none stands for a half. -/
def toChar : Letter → Char
  | .char c => c
  | _ => '\uFFFD'

end Letter

namespace Letters

/-- The letters of a text without halves. -/
def ofString (s : String) : Letters := s.toList.map .char

instance : Coe String Letters := ⟨ofString⟩

/-- A text in which the halves of a character that follow each other have become it. -/
def joined : Letters → Letters
  | .high a :: .low b :: rest => .char (Letter.pair a b) :: joined rest
  | x :: rest => x :: joined rest
  | [] => []

/-- A text without halves; one that stays alone is replaced. -/
def toText (s : Letters) : String := String.ofList (s.joined.map Letter.toChar)

theorem joined_chars (cs : List Char) : joined (cs.map .char) = cs.map .char := by
  induction cs with
  | nil => rfl
  | cons c cs ih => exact congrArg (Letter.char c :: ·) ih

theorem joined_ofString (s : String) : (ofString s).joined = ofString s := joined_chars _

theorem toText_ofString (s : String) : (ofString s).toText = s := by
  have hchars : (s.toList.map Letter.char).map Letter.toChar = s.toList := by
    rw [List.map_map]
    exact List.map_id _
  rw [toText, joined_ofString, ofString, hchars, String.ofList_toList]

/-- The first letter, if it is a low half, was one before. -/
theorem low_of_joined {s rest : Letters} {b : Fin 0x400} (h : s.joined = .low b :: rest) :
    ∃ rest', s = .low b :: rest' := by
  unfold joined at h
  split at h
  · cases h
  · exact ⟨_, congrArg (· :: _) (List.cons.inj h).1⟩
  · cases h

/-- What has been joined stays as it is. -/
theorem joined_joined (s : Letters) : s.joined.joined = s.joined := by
  induction s using joined.induct with
  | case1 a b rest ih => exact congrArg (Letter.char (Letter.pair a b) :: ·) ih
  | case2 x rest hx ih =>
    have hagain : joined (x :: joined rest) = x :: joined (joined rest) := by
      refine joined.eq_2 x _ ?_
      intro a b tail hhigh hlow
      obtain ⟨tail', hrest⟩ := low_of_joined hlow
      exact hx a b tail' hhigh hrest
    rw [joined.eq_2 x rest hx, hagain, ih]
  | case3 => rfl

end Letters

/-- A type of texts in letters. -/
class Spelled (τ : Type) where
  letters : τ → Letters
  /-- The text of some letters, or one that is close to it. -/
  ofLetters : Letters → τ
  ofLetters_letters : ∀ t : τ, ofLetters (letters t) = t
  letters_ofString : ∀ s : String, letters (ofLetters (Letters.ofString s)) = Letters.ofString s
  /-- With halves, the characters that they become are letters of some text. -/
  letters_joined : ∀ t : τ, letters (ofLetters (letters t).joined) = (letters t).joined
  /-- A text of letters that have been joined needs no joining. -/
  joined_letters : ∀ s : Letters,
    (letters (ofLetters s.joined)).joined = letters (ofLetters s.joined)

instance : Spelled Letters where
  letters s := s
  ofLetters s := s
  ofLetters_letters _ := rfl
  letters_ofString _ := rfl
  letters_joined _ := rfl
  joined_letters := Letters.joined_joined

instance : Spelled String where
  letters := Letters.ofString
  ofLetters := Letters.toText
  ofLetters_letters := Letters.toText_ofString
  letters_ofString s := by rw [Letters.toText_ofString]
  letters_joined s := by rw [Letters.joined_ofString, Letters.toText_ofString]
  joined_letters s := Letters.joined_ofString _

namespace Spelled

variable {τ : Type} [Spelled τ]

/-- A text without halves. -/
def text (s : String) : τ := ofLetters (Letters.ofString s)

/-- A text with its halves joined. -/
def joined (s : τ) : τ := ofLetters (letters s).joined

end Spelled

end ApiModels
