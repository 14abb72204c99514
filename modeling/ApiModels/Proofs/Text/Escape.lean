/-
ApiModels.Proofs.Text.Escape — what escaping a description twice does.

A second time escapes what the first time wrote: each backslash that stood
in the text, or was put before a quotation mark, gets one more
(`count_escape`). So an escaped description is left as it is exactly if
there was nothing to escape (`escape_escape_eq_iff`).

A field of at least two characters keeps its description
(`Description.ofField`), but escaped; of an escaped one this is the second
time, whatever the field is called (`ofField_escape`).
-/
import ApiModels.Naming
import ApiModels.Proofs.Text.Words

namespace ApiModels

namespace Description

/-- No character of a text has to be escaped. -/
def Simple (s : String) : Prop := '"' ∉ s.toList ∧ '\\' ∉ s.toList

instance : DecidablePred Simple := fun s =>
  inferInstanceAs (Decidable ('"' ∉ s.toList ∧ '\\' ∉ s.toList))

theorem toList_escape (s : String) :
    (escape s).toList = Text.unwords (Text.words (s.toList.flatMap escapeChar)) :=
  String.toList_ofList

/-! ## Quotation marks and backslashes -/

theorem escapeChar_of_ne {c : Char} (hquote : c ≠ '"') (hslash : c ≠ '\\') (hreturn : c ≠ '\r') :
    escapeChar c = [c] := by
  simp [escapeChar, hquote, hslash, hreturn]

/-- What holds of three characters and of all others holds of all. -/
theorem escapeChar_cases {P : Char → Prop} (quote : P '"') (slash : P '\\') (ret : P '\r')
    (other : ∀ c, c ≠ '"' → c ≠ '\\' → c ≠ '\r' → P c) (c : Char) : P c := by
  by_cases hquote : c = '"'
  · exact hquote ▸ quote
  by_cases hslash : c = '\\'
  · exact hslash ▸ slash
  by_cases hreturn : c = '\r'
  · exact hreturn ▸ ret
  exact other c hquote hslash hreturn

/-- Escaping neither adds quotation marks nor takes any away. -/
theorem quote_mem_escape {s : String} : '"' ∈ (escape s).toList ↔ '"' ∈ s.toList := by
  have hchar : ∀ c : Char, '"' ∈ escapeChar c ↔ '"' = c := by
    refine escapeChar_cases (by decide) (by decide) (by decide) fun c hquote hslash hreturn => ?_
    rw [escapeChar_of_ne hquote hslash hreturn, List.mem_singleton]
  rw [toList_escape, Text.mem_unwords_words (by decide), List.mem_flatMap]
  simp [hchar]

theorem count_flatMap_escapeChar (cs : List Char) :
    (cs.flatMap escapeChar).count '\\' = 2 * cs.count '\\' + cs.count '"' := by
  have hchar : ∀ c : Char, (escapeChar c).count '\\' =
      2 * (if c = '\\' then 1 else 0) + (if c = '"' then 1 else 0) := by
    refine escapeChar_cases (by decide) (by decide) (by decide) fun c hquote hslash hreturn => ?_
    simp [escapeChar_of_ne hquote hslash hreturn, hquote, hslash]
  induction cs with
  | nil => rfl
  | cons c cs ih =>
    rw [List.flatMap_cons, List.count_append, ih, hchar, List.count_cons, List.count_cons]
    simp only [beq_iff_eq]
    omega

/-- Each backslash of a text becomes two, and each quotation mark brings one. -/
theorem count_escape (s : String) :
    (escape s).toList.count '\\' = 2 * s.toList.count '\\' + s.toList.count '"' := by
  rw [toList_escape, Text.count_unwords_words (by decide), count_flatMap_escapeChar]

/-! ## A second time -/

theorem flatMap_escapeChar_of_simple {cs : List Char} (hquote : '"' ∉ cs) (hslash : '\\' ∉ cs)
    (hreturn : '\r' ∉ cs) : cs.flatMap escapeChar = cs := by
  induction cs with
  | nil => rfl
  | cons c cs ih =>
    simp only [List.mem_cons, not_or] at hquote hslash hreturn
    have hchar := escapeChar_of_ne (Ne.symm hquote.1) (Ne.symm hslash.1) (Ne.symm hreturn.1)
    rw [List.flatMap_cons, hchar, ih hquote.2 hslash.2 hreturn.2]
    rfl

/-- An escaped text is left as it is exactly if nothing in the text had to be escaped. -/
theorem escape_escape_eq_iff (s : String) : escape (escape s) = escape s ↔ Simple s := by
  constructor
  · intro h
    have hcount := count_escape (escape s)
    rw [h, count_escape] at hcount
    exact ⟨List.count_eq_zero.1 (by omega), List.count_eq_zero.1 (by omega)⟩
  · rintro ⟨hquote, hslash⟩
    -- What was escaped holds characters of the text and spaces, so no carriage return.
    have hsolid := Text.isWord_words (s.toList.flatMap escapeChar)
    have hreturn : '\r' ∉ (escape s).toList := by
      rw [toList_escape]
      intro hmem
      rcases Text.mem_unwords hsolid hmem with h | h <;> exact absurd h (by decide)
    have hslash' : '\\' ∉ (escape s).toList := by
      rw [← List.count_eq_zero, count_escape, List.count_eq_zero.2 hquote,
        List.count_eq_zero.2 hslash]
    have hquote' : '"' ∉ (escape s).toList := mt quote_mem_escape.1 hquote
    rw [← String.toList_inj, toList_escape, flatMap_escapeChar_of_simple hquote' hslash' hreturn]
    conv => lhs; rw [toList_escape]
    rw [Text.words_unwords hsolid, toList_escape]

/-! ## Descriptions of fields -/

/-- What was escaped has no blanks around it, so its length says whether it is kept. -/
theorem isEnough_escape (s : String) :
    isEnough (escape s) = decide (leastLength ≤ (escape s).length) := by
  have htrim : Text.trim (escape s).toList = (escape s).toList := by
    rw [toList_escape]
    exact Text.trim_unwords (Text.isWord_words _)
  rw [isEnough, htrim, String.length_toList]

/-- An escaped description that says enough is escaped again, whatever field it is of. -/
theorem ofField_escape (name resource : String) {s : String} (h : leastLength ≤ (escape s).length) :
    ofField name resource (escape s) = escape (escape s) := by
  rw [ofField, isEnough_escape, if_pos (decide_eq_true h)]

/-- What is made of a text that was read as the description of a field, and escaped on reading. -/
structure ReadAs (name resource text description : String) : Prop where
  eq : description = ofField name resource (escape text)
  once_iff : leastLength ≤ (escape text).length → (description = escape text ↔ Simple text)

/-- A text of which enough is left is the escaped text only where nothing had to be escaped. -/
theorem readAs_ofField (name resource text : String) :
    ReadAs name resource text (ofField name resource (escape text)) :=
  ⟨rfl, fun henough => by rw [ofField_escape name resource henough, escape_escape_eq_iff]⟩

end Description

end ApiModels
