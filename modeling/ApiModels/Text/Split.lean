/-
ApiModels.Text.Split — cutting a text at a character.

`splitOn c` gives the pieces between the occurrences of `c`, always at
least one. `joinWith c` puts them together again: joining what was split
gives back the text (`joinWith_splitOn`), and splitting what was joined
gives back pieces that hold no `c` themselves (`splitOn_joinWith`).
-/

namespace ApiModels.Text

/-- The pieces between the occurrences of `c`; one more than there are occurrences. -/
def splitOn (c : Char) : List Char → List (List Char)
  | [] => [[]]
  | x :: xs =>
    if x == c then [] :: splitOn c xs
    else match splitOn c xs with
      | [] => [[x]]
      | piece :: pieces => (x :: piece) :: pieces

/-- The pieces with one `c` between neighbours. -/
def joinWith (c : Char) : List (List Char) → List Char
  | [] => []
  | [piece] => piece
  | piece :: pieces => piece ++ c :: joinWith c pieces

theorem splitOn_ne_nil (c : Char) (xs : List Char) : splitOn c xs ≠ [] := by
  cases xs with
  | nil => simp [splitOn]
  | cons x xs =>
    simp only [splitOn]
    split
    · simp
    · split <;> simp

theorem joinWith_splitOn (c : Char) (xs : List Char) : joinWith c (splitOn c xs) = xs := by
  induction xs with
  | nil => rfl
  | cons x xs ih =>
    simp only [splitOn]
    split
    · next h =>
      cases hs : splitOn c xs with
      | nil => exact absurd hs (splitOn_ne_nil c xs)
      | cons piece pieces =>
        rw [hs] at ih
        simp [joinWith, ih, (beq_iff_eq.1 h)]
    · cases hs : splitOn c xs with
      | nil => exact absurd hs (splitOn_ne_nil c xs)
      | cons piece pieces =>
        rw [hs] at ih
        cases pieces with
        | nil => simpa [joinWith] using ih
        | cons next rest => simpa [joinWith] using ih

theorem splitOn_of_not_mem {c : Char} {xs : List Char} (h : c ∉ xs) : splitOn c xs = [xs] := by
  induction xs with
  | nil => rfl
  | cons x xs ih =>
    simp only [List.mem_cons, not_or] at h
    have hx : (x == c) = false := by simpa using fun e => h.1 e.symm
    simp [splitOn, hx, ih h.2]

theorem splitOn_append_cons {c : Char} {piece : List Char} (h : c ∉ piece) (rest : List Char) :
    splitOn c (piece ++ c :: rest) = piece :: splitOn c rest := by
  induction piece with
  | nil => simp [splitOn]
  | cons x xs ih =>
    simp only [List.mem_cons, not_or] at h
    have hx : (x == c) = false := by simpa using fun e => h.1 e.symm
    simp [splitOn, hx, ih h.2]

theorem splitOn_joinWith {c : Char} {pieces : List (List Char)} (hne : pieces ≠ [])
    (h : ∀ piece ∈ pieces, c ∉ piece) : splitOn c (joinWith c pieces) = pieces := by
  induction pieces with
  | nil => exact absurd rfl hne
  | cons piece rest ih =>
    cases rest with
    | nil => exact splitOn_of_not_mem (h piece (by simp))
    | cons next rest =>
      rw [joinWith, splitOn_append_cons (h piece (by simp)),
        ih (by simp) (fun p hp => h p (by simp [hp]))]
      simp

/-- The last piece: what follows the last occurrence of `c`, or the whole text. -/
def afterLast (c : Char) (xs : List Char) : List Char :=
  ((splitOn c xs).getLast?).getD []

/-- A text stands somewhere in another. -/
def isPartOf (part : List Char) : List Char → Bool
  | [] => part.isEmpty
  | c :: cs => part.isPrefixOf (c :: cs) || isPartOf part cs

end ApiModels.Text
