/-
ApiModels.Proofs.Text.Unescape — what was escaped can be read back.

A description is escaped after its blanks have been normalised, or before: it
comes to the same (`toList_escape_normalized`). So an escaped description is
the normalised text, with a backslash before each quotation mark and each
backslash. `unescape` takes these backslashes away again, from left to right,
and gives the normalised text for every text there is (`unescape_escape`).

In what was escaped, a quotation mark comes after an odd number of backslashes
(`odd_of_quote`), since backslashes of the text itself come in pairs.
-/
import ApiModels.Proofs.Text.Escape
import Mathlib.Algebra.Ring.Parity
import Mathlib.Data.List.DropRight

namespace ApiModels

namespace Description

/-- The text without carriage returns, with a space for each run of blanks and none at the ends. -/
def normalized (s : String) : List Char :=
  Text.trim (Text.collapse (s.toList.filter (· != '\r')))

/-- Each pair of a backslash and a backslash or a quotation mark becomes the second one of them. -/
def unescape : List Char → List Char
  | '\\' :: '\\' :: cs => '\\' :: unescape cs
  | '\\' :: '"' :: cs => '"' :: unescape cs
  | c :: cs => c :: unescape cs
  | [] => []

/-- The number of backslashes that a text ends in. -/
def finalBackslashes (cs : List Char) : Nat := (cs.rtakeWhile (· == '\\')).length

/-! ## Escaping and blanks -/

theorem escapeChar_of_solid (c : Char) (hc : Text.isBlank c = false) :
    escapeChar c ≠ [] ∧ ∀ d ∈ escapeChar c, Text.isBlank d = false := by
  revert hc
  refine escapeChar_cases (P := fun c => Text.isBlank c = false →
    escapeChar c ≠ [] ∧ ∀ d ∈ escapeChar c, Text.isBlank d = false)
    (fun h => ⟨nofun, List.forall_mem_cons.2 ⟨rfl, List.forall_mem_singleton.2 h⟩⟩)
    (fun h => ⟨nofun, List.forall_mem_cons.2 ⟨h, List.forall_mem_singleton.2 h⟩⟩)
    (fun h => absurd h (by decide)) ?_ c
  intro c hquote hslash hreturn hc
  rw [escapeChar_of_ne hquote hslash hreturn]
  exact ⟨nofun, List.forall_mem_singleton.2 hc⟩

theorem escapeChar_of_blank {c : Char} (hc : Text.isBlank c = true) (hreturn : c ≠ '\r') :
    escapeChar c = [c] := by
  refine escapeChar_of_ne ?_ ?_ hreturn <;>
  · rintro rfl
    cases hc

theorem flatMap_escapeChar_filter (cs : List Char) :
    (cs.filter (· != '\r')).flatMap escapeChar = cs.flatMap escapeChar := by
  induction cs with
  | nil => rfl
  | cons c cs ih =>
    by_cases hc : c = '\r'
    · subst hc
      exact ih
    · rw [List.filter_cons_of_pos (by simpa using hc), List.flatMap_cons, ih, List.flatMap_cons]

theorem normalized_eq (s : String) :
    normalized s = Text.unwords (Text.words (s.toList.filter (· != '\r'))) :=
  Text.trim_collapse _

/-- What is escaped is the normalised text, character by character. -/
theorem toList_escape_normalized (s : String) :
    (escape s).toList = (normalized s).flatMap escapeChar := by
  have hblank : ∀ c ∈ s.toList.filter (· != '\r'), Text.isBlank c = true →
      ∃ d, Text.isBlank d = true ∧ escapeChar c = [d] := by
    intro c hc hcase
    exact ⟨c, hcase, escapeChar_of_blank hcase (by simpa using (List.mem_filter.1 hc).2)⟩
  rw [toList_escape, ← flatMap_escapeChar_filter, Text.words_flatMap escapeChar_of_solid hblank,
    Text.unwords_flatMap rfl, normalized_eq]

theorem return_not_mem_normalized (s : String) : '\r' ∉ normalized s := by
  rw [normalized_eq]
  intro hmem
  rcases Text.mem_unwords (Text.isWord_words _) hmem with h | h <;> exact absurd h (by decide)

/-! ## One character after the other -/

/-- The text with other characters in the place of one. -/
def replaced (c : Char) (image cs : List Char) : List Char :=
  cs.flatMap fun d => if d = c then image else [d]

/-- Line feeds and tabs become spaces. -/
def blanked (c : Char) : List Char := if c = '\n' ∨ c = '\t' then [' '] else [c]

theorem blanked_of_solid {c : Char} (hc : Text.isBlank c = false) : blanked c = [c] := by
  refine if_neg ?_
  rintro (rfl | rfl) <;> cases hc

theorem words_blanked (cs : List Char) : Text.words (cs.flatMap blanked) = Text.words cs := by
  have hblank : ∀ c ∈ cs, Text.isBlank c = true → ∃ d, Text.isBlank d = true ∧ blanked c = [d] := by
    intro c _ hc
    unfold blanked
    split
    · exact ⟨' ', by decide, rfl⟩
    · exact ⟨c, hc, rfl⟩
  have hsolid : ∀ c, Text.isBlank c = false →
      blanked c ≠ [] ∧ ∀ d ∈ blanked c, Text.isBlank d = false := by
    intro c hc
    rw [blanked_of_solid hc]
    exact ⟨nofun, List.forall_mem_singleton.2 hc⟩
  have hword : ∀ w ∈ Text.words cs, w.flatMap blanked = w := by
    intro w hw
    have hsame : w.flatMap blanked = w.flatMap ([·]) :=
      List.flatMap_congr fun c hc => blanked_of_solid ((Text.isWord_words cs w hw).solid c hc)
    rw [hsame, List.flatMap_singleton']
  rw [Text.words_flatMap hsolid hblank, List.map_congr_left hword, List.map_id']

/-- Escaping all characters at once does what replacing one kind after the other does. -/
theorem toList_escape_replaced (s : String) :
    (escape s).toList = Text.unwords (Text.words (replaced '\t' [' '] (replaced '\r' []
      (replaced '\n' [' '] (replaced '"' ['\\', '"']
        (replaced '\\' ['\\', '\\'] s.toList)))))) := by
  have hchar : ∀ c, replaced '\t' [' '] (replaced '\r' [] (replaced '\n' [' ']
      (replaced '"' ['\\', '"'] (replaced '\\' ['\\', '\\'] [c])))) =
        (escapeChar c).flatMap blanked := by
    refine escapeChar_cases rfl rfl rfl fun c hquote hslash hreturn => ?_
    by_cases hfeed : c = '\n'
    · subst hfeed
      rfl
    by_cases htab : c = '\t'
    · subst htab
      rfl
    simp [replaced, escapeChar_of_ne, blanked, hquote, hslash, hreturn, hfeed, htab]
  have hall : replaced '\t' [' '] (replaced '\r' [] (replaced '\n' [' ']
      (replaced '"' ['\\', '"'] (replaced '\\' ['\\', '\\'] s.toList)))) =
        (s.toList.flatMap escapeChar).flatMap blanked := by
    rw [List.flatMap_assoc, ← funext hchar]
    simp [replaced, List.flatMap_assoc]
  rw [hall, words_blanked, toList_escape]

/-! ## Reading back -/

theorem unescape_cons {c : Char} (hc : c ≠ '\\') (cs : List Char) :
    unescape (c :: cs) = c :: unescape cs := by
  rw [unescape]
  · rintro _ rfl
    exact absurd rfl hc
  · rintro _ rfl
    exact absurd rfl hc

theorem unescape_flatMap {cs : List Char} (h : '\r' ∉ cs) :
    unescape (cs.flatMap escapeChar) = cs := by
  induction cs with
  | nil => rfl
  | cons c cs ih =>
    obtain ⟨hc, hcs⟩ := not_or.1 (List.mem_cons.not.1 h)
    have hrest := ih hcs
    by_cases hquote : c = '"'
    · subst hquote
      exact congrArg _ hrest
    by_cases hslash : c = '\\'
    · subst hslash
      exact congrArg _ hrest
    rw [List.flatMap_cons, escapeChar_of_ne hquote hslash (Ne.symm hc), List.singleton_append,
      unescape_cons hslash, hrest]

/-! ## Backslashes before quotation marks -/

theorem finalBackslashes_concat (cs : List Char) (c : Char) :
    finalBackslashes (cs ++ [c]) = if c = '\\' then finalBackslashes cs + 1 else 0 := by
  unfold finalBackslashes
  rw [List.rtakeWhile_concat]
  by_cases hc : c = '\\' <;> simp [hc]

/-- At the end of what was escaped backslashes come in pairs. -/
theorem even_finalBackslashes (cs : List Char) :
    Even (finalBackslashes (cs.flatMap escapeChar)) := by
  induction cs using List.reverseRecOn with
  | nil => exact ⟨0, rfl⟩
  | append_singleton cs c ih =>
    rw [List.flatMap_append, List.flatMap_singleton]
    generalize cs.flatMap escapeChar = before at ih ⊢
    refine escapeChar_cases (P := fun c => Even (finalBackslashes (before ++ escapeChar c)))
      ?_ ?_ ?_ (fun c hquote hslash hreturn => ?_) c
    · show Even (finalBackslashes (before ++ ['\\', '"']))
      rw [List.append_cons, finalBackslashes_concat, if_neg (by decide)]
      exact ⟨0, rfl⟩
    · show Even (finalBackslashes (before ++ ['\\', '\\']))
      rw [List.append_cons, finalBackslashes_concat, if_pos rfl, finalBackslashes_concat,
        if_pos rfl]
      exact ih.add (by decide : Even 2)
    · show Even (finalBackslashes (before ++ []))
      rwa [List.append_nil]
    · rw [escapeChar_of_ne hquote hslash hreturn, finalBackslashes_concat, if_neg hslash]
      exact ⟨0, rfl⟩

theorem singleton_eq_append_cons {c d : Char} {before after : List Char}
    (h : [c] = before ++ d :: after) : before = [] ∧ c = d := by
  cases before with
  | nil => exact ⟨rfl, (List.cons.inj h).1⟩
  | cons b before => exact absurd (List.cons.inj h).2.symm (by simp)

/-- A quotation mark among the characters for one is that mark itself, behind a backslash. -/
theorem eq_of_quote_in_escapeChar (c : Char) (before after : List Char) :
    escapeChar c = before ++ '"' :: after → before = ['\\'] := by
  refine escapeChar_cases (P := fun c => escapeChar c = before ++ '"' :: after → before = ['\\'])
    (fun h => ?_) (fun h => ?_) (fun h => ?_) (fun c hquote hslash hreturn h => ?_) c
  · change ['\\', '"'] = _ at h
    cases before with
    | nil => cases (List.cons.inj h).1
    | cons b before =>
      obtain ⟨rfl, hrest⟩ := List.cons.inj h
      rw [(singleton_eq_append_cons hrest).1]
  · change ['\\', '\\'] = _ at h
    cases before with
    | nil => cases (List.cons.inj h).1
    | cons b before => cases (singleton_eq_append_cons (List.cons.inj h).2).2
  · exact absurd (show [] = before ++ '"' :: after from h).symm (by simp)
  · rw [escapeChar_of_ne hquote hslash hreturn] at h
    exact absurd (singleton_eq_append_cons h).2 hquote

theorem odd_of_quote {cs before : List Char} : ∀ {after : List Char},
    cs.flatMap escapeChar = before ++ '"' :: after → Odd (finalBackslashes before) := by
  induction cs using List.reverseRecOn with
  | nil => exact fun h => absurd h.symm (by simp)
  | append_singleton cs c ih =>
    intro after h
    rw [List.flatMap_append, List.flatMap_singleton] at h
    rcases List.append_eq_append_iff.1 h with ⟨within, rfl, hquote⟩ | ⟨within, hcs, hquote⟩
    · rw [eq_of_quote_in_escapeChar c _ _ hquote, finalBackslashes_concat, if_pos rfl]
      exact (even_finalBackslashes cs).add_one
    · cases within with
      | nil => cases eq_of_quote_in_escapeChar c [] _ hquote.symm
      | cons d within =>
        obtain ⟨rfl, -⟩ := List.cons.inj hquote
        exact ih hcs

/--
An escaped description has its blanks normalised: single spaces between other characters. In it each
quotation mark comes after an odd number of backslashes, and without the backslashes of escapes it
is the normalised text.
-/
theorem unescape_escape (s : String) :
    Text.SingleSpaced (escape s).toList ∧
    (∀ before after, (escape s).toList = before ++ '"' :: after → Odd (finalBackslashes before)) ∧
    unescape (escape s).toList = normalized s := by
  refine ⟨?_, fun before after h => ?_, ?_⟩
  · rw [toList_escape]
    exact Text.singleSpaced_unwords (Text.isWord_words _)
  · rw [toList_escape_normalized] at h
    exact odd_of_quote h
  · rw [toList_escape_normalized, unescape_flatMap (return_not_mem_normalized s)]

/-- A carriage return between a backslash and a quotation mark does not join them to an escape. -/
example : escape " a\\\r\"\n b " = "a\\\\\\\" b" := by decide +kernel

end Description

end ApiModels
