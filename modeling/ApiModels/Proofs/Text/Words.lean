/-
ApiModels.Proofs.Text.Words — a text with its blanks normalised.

`unwords ∘ words` leaves one space between words and nothing around them.
What it gives is such a text already, so a second time changes nothing
(`words_unwords`, `trim_unwords`). No character that is not blank is lost or
made (`count_unwords_words`).

`collapse` says the same without words: each run of blanks becomes one space.
Without the spaces at the ends this is the text of its words with spaces between
them (`trim_collapse`). What replaces characters by others, but no blank by
anything else, does so word by word (`words_flatMap`).
-/
import ApiModels.Text.Blank
import Mathlib.Data.List.TakeWhile

namespace ApiModels.Text

/-- A run of characters that are not blank, and not an empty one. -/
structure IsWord (w : List Char) : Prop where
  ne_nil : w ≠ []
  solid : ∀ c ∈ w, isBlank c = false

/-! ## Words -/

/-- A scan gives words, wherever it stands. -/
theorem isWord_wordsFrom {current : List Char} (h : ∀ c ∈ current, isBlank c = false)
    (cs : List Char) : ∀ w ∈ wordsFrom current cs, IsWord w := by
  have hword : ∀ {current : List Char}, (∀ c ∈ current, isBlank c = false) →
      current.isEmpty = false → IsWord current.reverse := fun h hne =>
    ⟨by simpa using hne, fun c hc => h c (List.mem_reverse.1 hc)⟩
  induction cs generalizing current with
  | nil =>
    intro w hw
    rw [wordsFrom] at hw
    split at hw
    · cases hw
    · exact List.mem_singleton.1 hw ▸ hword h (by simpa using ‹¬ current.isEmpty = true›)
  | cons c cs ih =>
    rw [wordsFrom]
    split
    · split
      · exact ih (by simp)
      · rw [List.forall_mem_cons]
        exact ⟨hword h (by simpa using ‹¬ current.isEmpty = true›), ih (by simp)⟩
    · exact ih (List.forall_mem_cons.2 ⟨by simpa using ‹¬ isBlank c = true›, h⟩)

theorem isWord_words (cs : List Char) : ∀ w ∈ words cs, IsWord w :=
  isWord_wordsFrom (by simp) cs

/-- A scan reads on through characters that are not blank. -/
theorem wordsFrom_append {w : List Char} (h : ∀ c ∈ w, isBlank c = false) :
    ∀ current rest : List Char,
      wordsFrom current (w ++ rest) = wordsFrom (w.reverse ++ current) rest := by
  induction w with
  | nil => exact fun _ _ => rfl
  | cons c cs ih =>
    intro current rest
    obtain ⟨hc, hcs⟩ := List.forall_mem_cons.1 h
    rw [List.cons_append, wordsFrom, if_neg (by simp [hc]), ih hcs]
    simp

/-- The words of words with spaces between them are these words. -/
theorem words_unwords {ws : List (List Char)} (h : ∀ w ∈ ws, IsWord w) :
    words (unwords ws) = ws := by
  fun_induction unwords ws with
  | case1 => rfl
  | case2 w =>
    have hw := h w List.mem_cons_self
    have hscan := wordsFrom_append hw.solid [] []
    rw [List.append_nil, List.append_nil] at hscan
    rw [words, hscan, wordsFrom, if_neg (by simpa using hw.ne_nil), List.reverse_reverse]
  | case3 w ws _ ih =>
    obtain ⟨hw, hws⟩ := List.forall_mem_cons.1 h
    rw [words, wordsFrom_append hw.solid, List.append_nil, wordsFrom, if_pos (by decide),
      if_neg (by simpa using hw.ne_nil), List.reverse_reverse]
    exact congrArg (w :: ·) (ih hws)

/-! ## Characters -/

/-- What is not blank stays, each character as often as it was. -/
theorem count_unwords_wordsFrom {c : Char} (hc : isBlank c = false) (cs : List Char) :
    ∀ current : List Char,
      (unwords (wordsFrom current cs)).count c = current.count c + cs.count c := by
  have hspace : ' ' ≠ c := by
    rintro rfl
    exact absurd hc (by decide)
  have hcons : ∀ (w : List Char) (ws : List (List Char)),
      (unwords (w :: ws)).count c = w.count c + (unwords ws).count c := by
    intro w ws
    cases ws with
    | nil => simp [unwords]
    | cons v vs => simp [unwords, hspace]
  induction cs with
  | nil =>
    intro current
    rw [wordsFrom]
    split
    · rename_i hempty
      simp [List.isEmpty_iff.1 hempty, unwords]
    · simp [unwords]
  | cons d ds ih =>
    intro current
    rw [wordsFrom]
    split
    · rename_i hd
      have hne : d ≠ c := by
        rintro rfl
        rw [hd] at hc
        cases hc
      rw [List.count_cons_of_ne hne]
      split
      · rename_i hempty
        rw [ih, List.isEmpty_iff.1 hempty]
      · rw [hcons, ih, List.count_reverse, List.count_nil, Nat.zero_add]
    · rw [ih, List.count_cons, List.count_cons]
      omega

theorem count_unwords_words {c : Char} (hc : isBlank c = false) (cs : List Char) :
    (unwords (words cs)).count c = cs.count c := by
  rw [words, count_unwords_wordsFrom hc, List.count_nil, Nat.zero_add]

theorem mem_unwords_words {c : Char} (hc : isBlank c = false) {cs : List Char} :
    c ∈ unwords (words cs) ↔ c ∈ cs := by
  rw [← List.count_pos_iff, count_unwords_words hc, List.count_pos_iff]

/-- The characters between words are spaces, those of words are not blank. -/
theorem mem_unwords {ws : List (List Char)} (h : ∀ w ∈ ws, IsWord w) {c : Char}
    (hc : c ∈ unwords ws) : c = ' ' ∨ isBlank c = false := by
  fun_induction unwords ws with
  | case1 => cases hc
  | case2 w => exact .inr ((h w List.mem_cons_self).solid c hc)
  | case3 w ws _ ih =>
    obtain ⟨hw, hws⟩ := List.forall_mem_cons.1 h
    rcases List.mem_append.1 hc with hc | hc
    · exact .inr (hw.solid c hc)
    · rcases List.mem_cons.1 hc with rfl | hc
      · exact .inl rfl
      · exact ih hws hc

/-! ## Ends -/

theorem head?_unwords {ws : List (List Char)} (h : ∀ w ∈ ws, IsWord w) :
    ∀ c ∈ (unwords ws).head?, isBlank c = false := by
  intro c hc
  fun_induction unwords ws with
  | case1 => cases hc
  | case2 w => exact (h w List.mem_cons_self).solid c (List.mem_of_mem_head? hc)
  | case3 w ws _ _ =>
    have hw := h w List.mem_cons_self
    obtain ⟨d, ds, rfl⟩ := List.exists_cons_of_ne_nil hw.ne_nil
    cases hc
    exact hw.solid c List.mem_cons_self

theorem unwords_ne_nil {ws : List (List Char)} (h : ∀ w ∈ ws, IsWord w) (hne : ws ≠ []) :
    unwords ws ≠ [] := by
  intro hnil
  have hempty := words_unwords h
  rw [hnil] at hempty
  exact hne hempty.symm

theorem getLast?_unwords {ws : List (List Char)} (h : ∀ w ∈ ws, IsWord w) :
    ∀ c ∈ (unwords ws).getLast?, isBlank c = false := by
  intro c hc
  fun_induction unwords ws with
  | case1 => cases hc
  | case2 w => exact (h w List.mem_cons_self).solid c (List.mem_of_mem_getLast? hc)
  | case3 w ws hne ih =>
    obtain ⟨-, hws⟩ := List.forall_mem_cons.1 h
    have hrest := unwords_ne_nil hws hne
    obtain ⟨d, ds, hds⟩ := List.exists_cons_of_ne_nil hrest
    rw [List.getLast?_append, hds, List.getLast?_cons_cons, ← hds] at hc
    refine ih hws ?_
    rw [List.getLast?_eq_some_getLast hrest] at hc ⊢
    exact hc

theorem dropWhile_of_head? {cs : List Char} (h : ∀ c ∈ cs.head?, isBlank c = false) :
    cs.dropWhile isBlank = cs := by
  cases cs with
  | nil => rfl
  | cons c cs => rw [List.dropWhile_cons_of_neg (by simp [h c rfl])]

/-- Words with spaces between them have no blanks around them. -/
theorem trim_unwords {ws : List (List Char)} (h : ∀ w ∈ ws, IsWord w) :
    trim (unwords ws) = unwords ws := by
  rw [trim, dropWhile_of_head? (head?_unwords h), dropWhile_of_head?, List.reverse_reverse]
  rw [List.head?_reverse]
  exact getLast?_unwords h

theorem trim_cons_blank {c : Char} (hc : isBlank c = true) (cs : List Char) :
    trim (c :: cs) = trim cs := by
  rw [trim, List.dropWhile_cons_of_pos hc, trim]

theorem trim_append_blanks {blanks : List Char} (h : ∀ c ∈ blanks, isBlank c = true)
    (cs : List Char) : trim (cs ++ blanks) = trim cs := by
  unfold trim
  rw [List.dropWhile_append]
  split
  · rename_i hempty
    rw [List.isEmpty_iff.1 hempty, List.dropWhile_eq_nil_iff.2 h]
  · rw [List.reverse_append,
      List.dropWhile_append_of_pos fun c hc => h c (List.mem_reverse.1 hc)]

/-! ## Runs of blanks -/

/-- The text with one space for each run of blanks; `inRun` tells that it begins within a run. -/
def collapseFrom (inRun : Bool) : List Char → List Char
  | [] => []
  | c :: cs =>
    if isBlank c then (if inRun then [] else [' ']) ++ collapseFrom true cs
    else c :: collapseFrom false cs

/-- The text with each run of blanks replaced by one space. -/
def collapse (cs : List Char) : List Char := collapseFrom false cs

/-- Texts are the same but for blanks at the end of the first one. -/
def AgreesBeforeBlanks (cs ds : List Char) : Prop :=
  ∃ blanks, (∀ c ∈ blanks, isBlank c = true) ∧ cs = ds ++ blanks

/-- What a scan has read of a word and the rest of the text are the words that the scan gives. -/
theorem collapseFrom_agrees (cs : List Char) :
    (∀ current, current ≠ [] → AgreesBeforeBlanks (current.reverse ++ collapseFrom false cs)
      (unwords (wordsFrom current cs))) ∧
    AgreesBeforeBlanks (collapseFrom true cs) (unwords (wordsFrom [] cs)) := by
  induction cs with
  | nil =>
    refine ⟨fun current hne => ⟨[], nofun, ?_⟩, [], nofun, rfl⟩
    rw [wordsFrom, if_neg (by simpa using hne)]
    rfl
  | cons c cs ih =>
    obtain ⟨inWord, blanks, hblanks, hrest⟩ := ih
    cases hc : isBlank c with
    | true =>
      refine ⟨fun current hne => ?_, blanks, hblanks, ?_⟩
      · have hempty : current.isEmpty = false := by simpa using hne
        simp only [collapseFrom, wordsFrom, hc, hempty, if_true, hrest]
        cases wordsFrom [] cs with
        | nil => exact ⟨' ' :: blanks, List.forall_mem_cons.2 ⟨by decide, hblanks⟩, rfl⟩
        | cons w ws => exact ⟨blanks, hblanks, by simp [unwords]⟩
      · rw [collapseFrom, if_pos hc, wordsFrom, if_pos hc]
        exact hrest
    | false =>
      have hword := inWord [c] nofun
      refine ⟨fun current hne => ?_, ?_⟩
      · have hlonger := inWord (c :: current) nofun
        rw [List.reverse_cons, List.append_assoc] at hlonger
        rw [collapseFrom, if_neg (by simp [hc]), wordsFrom, if_neg (by simp [hc])]
        exact hlonger
      · rw [collapseFrom, if_neg (by simp [hc]), wordsFrom, if_neg (by simp [hc])]
        exact hword

theorem AgreesBeforeBlanks.trim_eq {cs : List Char} {ws : List (List Char)}
    (h : AgreesBeforeBlanks cs (unwords ws)) (hws : ∀ w ∈ ws, IsWord w) :
    trim cs = unwords ws := by
  obtain ⟨blanks, hblanks, rfl⟩ := h
  rw [trim_append_blanks hblanks, trim_unwords hws]

/-- With one space for each run of blanks, and none at the ends, a text is its words. -/
theorem trim_collapse (cs : List Char) : trim (collapse cs) = unwords (words cs) := by
  have hwords := isWord_words cs
  cases cs with
  | nil => rfl
  | cons c cs =>
    obtain ⟨inWord, inRun⟩ := collapseFrom_agrees cs
    rw [words, wordsFrom] at hwords ⊢
    rw [collapse, collapseFrom]
    cases hc : isBlank c with
    | true =>
      simp only [hc, if_true] at hwords ⊢
      exact (trim_cons_blank (by decide) _).trans (inRun.trim_eq hwords)
    | false =>
      simp only [hc, Bool.false_eq_true, if_false] at hwords ⊢
      exact (inWord [c] nofun).trim_eq hwords

/-- All blanks of a text are spaces, and each of them stands between two other characters. -/
def SingleSpaced (cs : List Char) : Prop :=
  ∀ before c after, cs = before ++ c :: after → isBlank c = true →
    c = ' ' ∧ (∃ d ∈ before.getLast?, isBlank d = false) ∧ ∃ d ∈ after.head?, isBlank d = false

theorem singleSpaced_unwords {ws : List (List Char)} (h : ∀ w ∈ ws, IsWord w) :
    SingleSpaced (unwords ws) := by
  fun_induction unwords ws with
  | case1 => exact fun before c after heq => absurd heq.symm (by simp)
  | case2 w =>
    intro before c after heq hc
    rw [(h w List.mem_cons_self).solid c (heq ▸ by simp)] at hc
    cases hc
  | case3 w ws hne ih =>
    obtain ⟨hw, hws⟩ := List.forall_mem_cons.1 h
    obtain ⟨d, ds, hds⟩ := List.exists_cons_of_ne_nil (unwords_ne_nil hws hne)
    have hfirst : isBlank d = false := head?_unwords hws d (by rw [hds]; rfl)
    have hlast : ∃ d ∈ w.getLast?, isBlank d = false :=
      ⟨w.getLast hw.ne_nil, List.getLast?_eq_some_getLast hw.ne_nil,
        hw.solid _ (List.getLast_mem hw.ne_nil)⟩
    intro before c after heq hc
    -- The blank stands in the first word, behind it, or among the other words.
    rcases List.append_eq_append_iff.1 heq with ⟨within, rfl, hrest⟩ | ⟨within, rfl, hrest⟩
    · cases within with
      | nil =>
        cases hrest
        rw [List.append_nil, hds]
        exact ⟨rfl, hlast, d, rfl, hfirst⟩
      | cons space before =>
        obtain ⟨rfl, hothers⟩ := List.cons.inj hrest
        obtain ⟨hspace, ⟨l, hl, hsolid⟩, hafter⟩ := ih hws before c after hothers hc
        refine ⟨hspace, ⟨l, ?_, hsolid⟩, hafter⟩
        rw [List.getLast?_append, List.getLast?_cons, hl]
        rfl
    · cases within with
      | nil =>
        cases hrest
        rw [hds]
        exact ⟨rfl, by simpa using hlast, d, rfl, hfirst⟩
      | cons e within =>
        obtain ⟨rfl, -⟩ := List.cons.inj hrest
        rw [hw.solid c (by simp)] at hc
        cases hc

/-! ## Replacing characters -/

theorem wordsFrom_flatMap {f : Char → List Char}
    (hsolid : ∀ c, isBlank c = false → f c ≠ [] ∧ ∀ d ∈ f c, isBlank d = false)
    (cs : List Char) (hblank : ∀ c ∈ cs, isBlank c = true → ∃ d, isBlank d = true ∧ f c = [d]) :
    ∀ current : List Char, (∀ c ∈ current, isBlank c = false) →
      wordsFrom (current.reverse.flatMap f).reverse (cs.flatMap f) =
        (wordsFrom current cs).map (·.flatMap f) := by
  have hempty : ∀ current : List Char, (∀ c ∈ current, isBlank c = false) →
      (current.reverse.flatMap f).reverse.isEmpty = current.isEmpty := by
    intro current hcurrent
    cases current with
    | nil => rfl
    | cons c cs =>
      have := (hsolid c (hcurrent c List.mem_cons_self)).1
      simp [this]
  induction cs with
  | nil =>
    intro current hcurrent
    rw [List.flatMap_nil, wordsFrom, wordsFrom, hempty current hcurrent]
    split <;> simp
  | cons c cs ih =>
    intro current hcurrent
    obtain ⟨hc, hcs⟩ := List.forall_mem_cons.1 hblank
    rw [List.flatMap_cons]
    cases hcase : isBlank c with
    | true =>
      obtain ⟨d, hd, heq⟩ := hc hcase
      have hrest := ih hcs [] nofun
      rw [heq, List.singleton_append, wordsFrom, if_pos hd, wordsFrom, if_pos hcase,
        hempty current hcurrent]
      split
      · exact hrest
      · rw [List.map_cons, List.reverse_reverse]
        exact congrArg _ hrest
    | false =>
      rw [wordsFrom_append (hsolid c hcase).2, wordsFrom, if_neg (by simp [hcase]),
        ← ih hcs (c :: current) (List.forall_mem_cons.2 ⟨hcase, hcurrent⟩)]
      simp

/-- Where blanks are replaced by blanks, and other characters by others, so are the words. -/
theorem words_flatMap {f : Char → List Char}
    (hsolid : ∀ c, isBlank c = false → f c ≠ [] ∧ ∀ d ∈ f c, isBlank d = false)
    {cs : List Char}
    (hblank : ∀ c ∈ cs, isBlank c = true → ∃ d, isBlank d = true ∧ f c = [d]) :
    words (cs.flatMap f) = (words cs).map (·.flatMap f) :=
  wordsFrom_flatMap hsolid cs hblank [] nofun

theorem unwords_flatMap {f : Char → List Char} (hspace : f ' ' = [' ']) (ws : List (List Char)) :
    unwords (ws.map (·.flatMap f)) = (unwords ws).flatMap f := by
  fun_induction unwords ws with
  | case1 => rfl
  | case2 w => rfl
  | case3 w ws hne ih =>
    rw [List.flatMap_append, List.flatMap_cons, hspace, ← ih]
    cases ws with
    | nil => exact absurd rfl hne
    | cons v vs => rfl

end ApiModels.Text
