/-
ApiModels.Proofs.Text.Joined — taking joined texts apart.

Texts that are joined by a mark can be taken apart again where none of them
holds the mark. Where the parts of a text are joined by colons and the texts by
bars, less is enough: if a bar stands in the last part of a text only and a
colon in the first only (`Parted`), then of the pieces between bars just those
with a colon begin a text (`IsParted.headed`), and lists that are marked by
their heads can be told apart (`flatten_inj_of_heads`). So such texts can be
told apart when they are joined (`joinWith_inj_of_parted`), and read from behind
so can those with the marks the other way round.
-/
import ApiModels.Text.Split
import Mathlib.Data.List.Basic

namespace ApiModels

/-! ## Pieces -/

namespace Text

/-- A text that is parted at its first mark is parted in one way. -/
theorem append_cons_inj {c : Char} {s s' t t' : List Char} (hs : c ∉ s) (hs' : c ∉ s')
    (h : s ++ c :: t = s' ++ c :: t') : s = s' ∧ t = t' := by
  have hsplit := congrArg (splitOn c) h
  rw [splitOn_append_cons hs, splitOn_append_cons hs'] at hsplit
  obtain rfl := (List.cons.inj hsplit).1
  exact ⟨rfl, (List.cons.inj (List.append_cancel_left h)).2⟩

/-- A text that is parted at its last mark is parted in one way. -/
theorem append_cons_inj_last {c : Char} {s s' t t' : List Char} (ht : c ∉ t) (ht' : c ∉ t')
    (h : s ++ c :: t = s' ++ c :: t') : s = s' ∧ t = t' := by
  have hreverse := congrArg List.reverse h
  simp only [List.reverse_append, List.reverse_cons, List.append_assoc, List.singleton_append]
    at hreverse
  obtain ⟨ht, hs⟩ := append_cons_inj (by simpa using ht) (by simpa using ht') hreverse
  exact ⟨List.reverse_inj.1 hs, List.reverse_inj.1 ht⟩

/-- The pieces of a text are those of its parts, if it is parted at a mark. -/
theorem splitOn_append (c : Char) (s t : List Char) :
    splitOn c (s ++ c :: t) = splitOn c s ++ splitOn c t := by
  induction s with
  | nil => simp [splitOn]
  | cons x xs ih =>
    rw [List.cons_append, splitOn, splitOn]
    split
    · rw [ih, List.cons_append]
    · rw [ih]
      cases hsplit : splitOn c xs with
      | nil => exact absurd hsplit (splitOn_ne_nil c xs)
      | cons piece pieces => rfl

theorem joinWith_eq_intercalate (c : Char) (pieces : List (List Char)) :
    [c].intercalate pieces = joinWith c pieces := by
  induction pieces with
  | nil => rfl
  | cons piece pieces ih =>
    cases pieces with
    | nil => simp [List.intercalate, joinWith]
    | cons next rest => simpa [List.intercalate, joinWith] using ih

theorem joinWith_ne_nil {c : Char} {piece : List Char} (h : piece ≠ []) (rest : List (List Char)) :
    joinWith c (piece :: rest) ≠ [] := by
  cases rest with
  | nil => exact h
  | cons next rest => simp [joinWith]

theorem joinWith_cons_cons (c : Char) (t next : List Char) (rest : List (List Char)) :
    joinWith c (t :: next :: rest) = t ++ c :: joinWith c (next :: rest) := rfl

/-- The pieces of joined texts are those of the texts, one after another. -/
theorem splitOn_joinWith_flatMap (c : Char) {texts : List (List Char)} (hne : texts ≠ []) :
    splitOn c (joinWith c texts) = texts.flatMap (splitOn c) := by
  induction texts with
  | nil => exact absurd rfl hne
  | cons t rest ih =>
    cases rest with
    | nil => simp [joinWith]
    | cons next rest =>
      rw [joinWith_cons_cons, splitOn_append, ih (List.cons_ne_nil _ _),
        ← List.flatMap_cons]

theorem joinWith_append (c : Char) {texts texts' : List (List Char)} (h : texts ≠ [])
    (h' : texts' ≠ []) :
    joinWith c (texts ++ texts') = joinWith c texts ++ c :: joinWith c texts' := by
  induction texts with
  | nil => exact absurd rfl h
  | cons t rest ih =>
    cases rest with
    | nil =>
      obtain ⟨t', rest', rfl⟩ := List.exists_cons_of_ne_nil h'
      rfl
    | cons next rest =>
      rw [List.cons_append, List.cons_append, joinWith_cons_cons, ← List.cons_append,
        ih (List.cons_ne_nil _ _), joinWith_cons_cons, List.append_assoc, List.cons_append]

theorem reverse_joinWith (c : Char) (texts : List (List Char)) :
    (joinWith c texts).reverse = joinWith c (texts.map List.reverse).reverse := by
  induction texts with
  | nil => rfl
  | cons t rest ih =>
    cases rest with
    | nil => rfl
    | cons next rest =>
      rw [joinWith_cons_cons, List.map_cons, List.reverse_cons,
        joinWith_append c (by simp) (List.cons_ne_nil _ _), ← ih]
      simp [joinWith]

/-- What has no mark stands before the first piece of what follows. -/
theorem splitOn_append_of_not_mem {c : Char} {s : List Char} (hs : c ∉ s) (t : List Char) :
    ∃ piece pieces, splitOn c t = piece :: pieces ∧
      splitOn c (s ++ t) = (s ++ piece) :: pieces := by
  obtain ⟨piece, pieces, ht⟩ := List.exists_cons_of_ne_nil (splitOn_ne_nil c t)
  refine ⟨piece, pieces, ht, ?_⟩
  induction s with
  | nil => exact ht
  | cons x xs ih =>
    simp only [List.mem_cons, not_or] at hs
    have hx : (x == c) = false := by simpa using Ne.symm hs.1
    rw [List.cons_append, splitOn, hx, if_neg Bool.false_ne_true, ih hs.2]
    rfl

theorem mem_of_mem_splitOn {c d : Char} {piece : List Char} :
    ∀ {cs : List Char}, piece ∈ splitOn c cs → d ∈ piece → d ∈ cs
  | [], hpiece, hd => by
    simp only [splitOn, List.mem_singleton] at hpiece
    simp [hpiece] at hd
  | x :: xs, hpiece, hd => by
    simp only [splitOn] at hpiece
    split at hpiece
    · rcases List.mem_cons.1 hpiece with rfl | hpiece
      · simp at hd
      · exact List.mem_cons_of_mem _ (mem_of_mem_splitOn hpiece hd)
    · split at hpiece
      · simp_all
      · rename_i first pieces hsplit
        rcases List.mem_cons.1 hpiece with rfl | hpiece
        · rcases List.mem_cons.1 hd with rfl | hd
          · simp
          · exact List.mem_cons_of_mem _
              (mem_of_mem_splitOn (hsplit ▸ List.mem_cons_self) hd)
        · exact List.mem_cons_of_mem _
            (mem_of_mem_splitOn (hsplit ▸ List.mem_cons_of_mem _ hpiece) hd)

end Text

/-! ## Lists marked by their heads -/

/-- Something holds of the first element of a list, and of no other. -/
def Headed {α : Type} (p : α → Bool) (g : List α) : Prop :=
  ∃ a as, g = a :: as ∧ p a = true ∧ ∀ b ∈ as, p b = false

section

variable {α : Type} {p : α → Bool}

/-- What is not marked ends where the first list that is marked by its head begins. -/
theorem takeWhile_append_flatten {as : List α} {gs : List (List α)}
    (has : ∀ b ∈ as, p b = false) (hgs : ∀ g ∈ gs, Headed p g) :
    (as ++ gs.flatten).takeWhile (fun a => !p a) = as := by
  have hnil : gs.flatten.takeWhile (fun a => !p a) = [] := by
    cases gs with
    | nil => rfl
    | cons g rest =>
      obtain ⟨a, as, rfl, ha, -⟩ := hgs g List.mem_cons_self
      simp [ha]
  rw [List.takeWhile_append_of_pos (by simpa using has), hnil, List.append_nil]

/-- Lists that are marked by their heads can be told apart when they are joined. -/
theorem flatten_inj_of_heads {gs gs' : List (List α)} (h : ∀ g ∈ gs, Headed p g)
    (h' : ∀ g ∈ gs', Headed p g) (heq : gs.flatten = gs'.flatten) : gs = gs' := by
  induction gs generalizing gs' with
  | nil =>
    cases gs' with
    | nil => rfl
    | cons g rest =>
      obtain ⟨a, as, rfl, -⟩ := h' g List.mem_cons_self
      simp at heq
  | cons g rest ih =>
    obtain ⟨⟨a, as, rfl, -, has⟩, hrest⟩ := List.forall_mem_cons.1 h
    cases gs' with
    | nil => simp at heq
    | cons g' rest' =>
      obtain ⟨⟨a', as', rfl, -, has'⟩, hrest'⟩ := List.forall_mem_cons.1 h'
      rw [List.flatten_cons, List.flatten_cons, List.cons_append, List.cons_append] at heq
      obtain ⟨rfl, htail⟩ := List.cons.inj heq
      have hsame : as = as' := by
        rw [← takeWhile_append_flatten has hrest, htail, takeWhile_append_flatten has' hrest']
      subst hsame
      rw [ih hrest hrest' (List.append_cancel_left htail)]

end

/-! ## Texts of three parts -/

/-- A text of three parts between colons, with bars in the last and colons in the first only. -/
structure Parted (text first middle last : List Char) : Prop where
  eq : text = first ++ ':' :: (middle ++ ':' :: last)
  first : '|' ∉ first
  middle : ':' ∉ middle ∧ '|' ∉ middle
  last : ':' ∉ last

/-- A text is made of such parts. -/
def IsParted (text : List Char) : Prop := ∃ first middle last, Parted text first middle last

/-- A text is parted in one way. -/
theorem Parted.unique {text first middle last first' middle' last' : List Char}
    (h : Parted text first middle last) (h' : Parted text first' middle' last') :
    first = first' ∧ middle = middle' ∧ last = last' := by
  have heq : (first ++ ':' :: middle) ++ ':' :: last =
      (first' ++ ':' :: middle') ++ ':' :: last' := by
    simpa using h.eq.symm.trans h'.eq
  obtain ⟨hfront, rfl⟩ := Text.append_cons_inj_last h.last h'.last heq
  obtain ⟨rfl, rfl⟩ := Text.append_cons_inj_last h.middle.1 h'.middle.1 hfront
  exact ⟨rfl, rfl, rfl⟩

/-- Of the pieces between the bars of such a text the first holds a colon, and no other does. -/
theorem IsParted.headed {text : List Char} (h : IsParted text) :
    Headed (fun piece => decide (':' ∈ piece)) (Text.splitOn '|' text) := by
  obtain ⟨first, middle, last, h⟩ := h
  have hfront : '|' ∉ first ++ ':' :: (middle ++ [':']) := by
    simp [h.first, h.middle.2]
  obtain ⟨piece, pieces, hlast, hsplit⟩ := Text.splitOn_append_of_not_mem hfront last
  refine ⟨first ++ ':' :: (middle ++ [':']) ++ piece, pieces, ?_, ?_, fun other hother => ?_⟩
  · rw [← hsplit, h.eq]
    simp
  · simp
  · have hmem : other ∈ Text.splitOn '|' last := hlast ▸ List.mem_cons_of_mem _ hother
    exact decide_eq_false fun hcolon => h.last (Text.mem_of_mem_splitOn hmem hcolon)

/-- Such texts can be told apart when they are joined by bars. -/
theorem joinWith_inj_of_parted {texts texts' : List (List Char)} (h : ∀ t ∈ texts, IsParted t)
    (h' : ∀ t ∈ texts', IsParted t) (heq : Text.joinWith '|' texts = Text.joinWith '|' texts') :
    texts = texts' := by
  have hempty : ∀ {texts : List (List Char)}, (∀ t ∈ texts, IsParted t) →
      Text.joinWith '|' texts = [] → texts = [] := by
    intro texts htexts hnil
    cases texts with
    | nil => rfl
    | cons t rest =>
      obtain ⟨first, middle, last, ht⟩ := htexts t List.mem_cons_self
      exact absurd hnil (Text.joinWith_ne_nil (by simp [ht.eq]) rest)
  by_cases hne : texts = []
  · subst hne
    exact (hempty h' heq.symm).symm
  by_cases hne' : texts' = []
  · subst hne'
    exact hempty h heq
  have hsplit := congrArg (Text.splitOn '|') heq
  rw [Text.splitOn_joinWith_flatMap _ hne, Text.splitOn_joinWith_flatMap _ hne',
    List.flatMap_def, List.flatMap_def] at hsplit
  have hpieces := flatten_inj_of_heads (List.forall_mem_map.2 fun t ht => (h t ht).headed)
    (List.forall_mem_map.2 fun t ht => (h' t ht).headed) hsplit
  have hinjective : Function.Injective (Text.splitOn '|') :=
    Function.LeftInverse.injective (Text.joinWith_splitOn '|')
  exact List.map_injective_iff.2 hinjective hpieces

/-! ### The same from behind -/

/-- Texts can be told apart as well when they are such texts read from behind. -/
theorem joinWith_inj_of_reverse_parted {texts texts' : List (List Char)}
    (h : ∀ t ∈ texts, IsParted t.reverse) (h' : ∀ t ∈ texts', IsParted t.reverse)
    (heq : Text.joinWith '|' texts = Text.joinWith '|' texts') : texts = texts' := by
  have hreverse := congrArg List.reverse heq
  rw [Text.reverse_joinWith, Text.reverse_joinWith] at hreverse
  have hparted : ∀ texts : List (List Char), (∀ t ∈ texts, IsParted t.reverse) →
      ∀ t ∈ (texts.map List.reverse).reverse, IsParted t := by
    simp only [List.mem_reverse, List.mem_map, forall_exists_index, and_imp]
    rintro texts htexts _ t ht rfl
    exact htexts t ht
  have hsame := joinWith_inj_of_parted (hparted _ h) (hparted _ h') hreverse
  exact List.map_injective_iff.2 List.reverse_injective (List.reverse_injective hsame)

end ApiModels
