/-
ApiModels.Proofs.Value.Sorting — sorting loses nothing and puts in order.

`sortedBy_perm` needs nothing of the comparison. `sortedBy_pairwise` needs
that the comparison ranks the elements that are there (`Ranks`): then no
element comes after one that it is below. Where equal places mean equal
elements, both together determine the result (`sortedBy_eq_of_perm`).

The ranking is asked for on a set of elements and not on the whole type,
since scalars of different kinds cannot be compared while those in one
list can.

`sortedBy_forall₂` needs nothing of the comparison either: lists whose
elements correspond and compare alike are sorted alike.
-/
import ApiModels.Value.Order
import Mathlib.Data.List.Forall2

namespace ApiModels

variable {α : Type}

/-! ## Nothing is lost -/

theorem rising_append (below : α → α → Bool) (a : α) (l : List α) :
    (rising below a l).1 ++ (rising below a l).2 = l := by
  induction l generalizing a with
  | nil => rfl
  | cons b bs ih =>
    simp only [rising]
    split
    · rfl
    · simp [ih b]

/-- Elements that fall are those that rise by the comparison turned round. -/
theorem falling_eq_rising (below : α → α → Bool) (a : α) (l : List α) :
    falling below a l = rising (fun x y => !below x y) a l := by
  induction l generalizing a with
  | nil => rfl
  | cons b bs ih =>
    simp only [falling, rising, ih b]
    cases below b a <;> rfl

theorem falling_append (below : α → α → Bool) (a : α) (l : List α) :
    (falling below a l).1 ++ (falling below a l).2 = l :=
  falling_eq_rising below a l ▸ rising_append _ a l

theorem orderedFront_perm (below : α → α → Bool) :
    ∀ l : List α, ((orderedFront below l).1 ++ (orderedFront below l).2).Perm l
  | [] => .refl _
  | [_] => .refl _
  | a :: b :: bs => by
    simp only [orderedFront]
    split
    · have h := falling_append below b bs
      have hrev := (List.reverse_perm (a :: b :: (falling below b bs).1)).append_right
        (falling below b bs).2
      exact hrev.trans (by rw [List.cons_append, List.cons_append, h])
    · have h := rising_append below b bs
      rw [List.cons_append, List.cons_append, h]

theorem insertSorted_perm (below : α → α → Bool) (sorted : List α) (a : α) :
    (insertSorted below sorted a).Perm (a :: sorted) := by
  unfold insertSorted
  exact List.perm_middle.trans (by rw [List.take_append_drop])

theorem foldl_insertSorted_perm (below : α → α → Bool) (rest front : List α) :
    (rest.foldl (insertSorted below) front).Perm (front ++ rest) := by
  induction rest generalizing front with
  | nil => simp
  | cons a rest ih =>
    have hfront := (insertSorted_perm below front a).append_right rest
    exact (ih _).trans (hfront.trans List.perm_middle.symm)

/-- Sorting a list gives the same elements, each as often. -/
theorem sortedBy_perm (below : α → α → Bool) (l : List α) : (sortedBy below l).Perm l :=
  (foldl_insertSorted_perm below _ _).trans (orderedFront_perm below l)

theorem sortOnKey_perm {keyOf : α → Scalar} {l sorted : List α}
    (h : sortOnKey keyOf l = .ok sorted) : sorted.Perm l := by
  unfold sortOnKey at h
  split at h
  · cases h
    exact sortedBy_perm _ _
  · cases h

@[simp] theorem mem_sortedBy {below : α → α → Bool} {l : List α} {a : α} :
    a ∈ sortedBy below l ↔ a ∈ l :=
  (sortedBy_perm below l).mem_iff

/-! ## The result is in order -/

/-- The comparison puts the elements of a set in a row, several at one place allowed. -/
structure Ranks (below : α → α → Bool) (S : α → Prop) : Prop where
  asymm : ∀ {a b}, S a → S b → below a b = true → below b a = false
  trans : ∀ {a b c}, S a → S b → S c →
    below b a = false → below c b = false → below c a = false

theorem Ranks.mono {below : α → α → Bool} {S T : α → Prop} (hT : ∀ a, T a → S a)
    (h : Ranks below S) : Ranks below T where
  asymm := fun ha hb => h.asymm (hT _ ha) (hT _ hb)
  trans := fun ha hb hc => h.trans (hT _ ha) (hT _ hb) (hT _ hc)

/-- No element of the list is below an earlier one. -/
def InOrder (below : α → α → Bool) (l : List α) : Prop :=
  l.Pairwise fun a b => below b a = false

section

variable {below : α → α → Bool} {S : α → Prop}

theorem rising_inOrder (h : Ranks below S) :
    ∀ (a : α) (l : List α), S a → (∀ b ∈ l, S b) →
      InOrder below (a :: (rising below a l).1)
  | a, [], _, _ => by simp [rising, InOrder]
  | a, b :: bs, ha, hl => by
    obtain ⟨hb, hbs⟩ := List.forall_mem_cons.1 hl
    simp only [rising]
    split
    · simp [InOrder]
    · rename_i hba
      have ih := rising_inOrder h b bs hb hbs
      refine List.pairwise_cons.2 ⟨?_, ih⟩
      intro c hc
      rcases List.mem_cons.1 hc with rfl | hc
      · simpa using hba
      · have hcb := (List.pairwise_cons.1 ih).1 c hc
        have hcS : S c := hbs c (rising_append below b bs ▸ List.mem_append_left _ hc)
        exact h.trans ha hb hcS (by simpa using hba) hcb

theorem falling_inOrder (h : Ranks below S) :
    ∀ (a : α) (l : List α), S a → (∀ b ∈ l, S b) →
      (a :: (falling below a l).1).Pairwise fun c d => below c d = false
  | a, [], _, _ => by simp [falling]
  | a, b :: bs, ha, hl => by
    obtain ⟨hb, hbs⟩ := List.forall_mem_cons.1 hl
    simp only [falling]
    split
    · rename_i hba
      have ih := falling_inOrder h b bs hb hbs
      have hab : below a b = false := h.asymm hb ha hba
      refine List.pairwise_cons.2 ⟨?_, ih⟩
      intro c hc
      rcases List.mem_cons.1 hc with rfl | hc
      · exact hab
      · have hbc := (List.pairwise_cons.1 ih).1 c hc
        have hcS : S c := hbs c (falling_append below b bs ▸ List.mem_append_left _ hc)
        exact h.trans hcS hb ha hbc hab
    · simp

theorem orderedFront_inOrder (h : Ranks below S) :
    ∀ l : List α, (∀ a ∈ l, S a) → InOrder below (orderedFront below l).1
  | [], _ => by simp [orderedFront, InOrder]
  | [a], _ => by simp [orderedFront, InOrder]
  | a :: b :: bs, hl => by
    obtain ⟨ha, hl⟩ := List.forall_mem_cons.1 hl
    obtain ⟨hb, hbs⟩ := List.forall_mem_cons.1 hl
    have hrise := rising_inOrder h a (b :: bs) ha hl
    have hfall := falling_inOrder h a (b :: bs) ha hl
    simp only [orderedFront]
    split
    · rename_i hba
      simp only [falling, hba, if_true] at hfall
      exact List.pairwise_reverse.2 hfall
    · rename_i hba
      simpa only [rising, hba, Bool.false_eq_true, if_false] using hrise

/-- The position found by halving parts the list: nothing before it is above the element. -/
theorem positionFor_parts (h : Ranks below S) {a : α} (ha : S a) {l : List α}
    (hl : ∀ b ∈ l, S b) (hs : InOrder below l) :
    ∀ (n low high : Nat), high - low ≤ n → low ≤ high → high ≤ l.length →
      (∀ i (hi : i < l.length), i < low → below a l[i] = false) →
      (∀ i (hi : i < l.length), high ≤ i → below a l[i] = true) →
      ∃ p, positionFor below a l n low high = p ∧
        (∀ i (hi : i < l.length), i < p → below a l[i] = false) ∧
        (∀ i (hi : i < l.length), p ≤ i → below a l[i] = true)
  | 0, low, high, hn, hle, _, hlow, hhigh =>
    ⟨low, rfl, hlow, fun i hi hp => hhigh i hi (by omega)⟩
  | n + 1, low, high, hn, hle, hlen, hlow, hhigh => by
    by_cases hlt : low < high
    · have hm : low + (high - low) / 2 < l.length := by omega
      simp only [positionFor, hlt, if_true, List.getElem?_eq_getElem hm]
      have hrank := List.pairwise_iff_getElem.1 hs
      have hmS : S l[low + (high - low) / 2] := hl _ (List.getElem_mem hm)
      split
      · rename_i hab
        refine positionFor_parts h ha hl hs n low _ (by omega) (by omega) (by omega) hlow ?_
        intro i hi hmi
        rcases Nat.lt_or_eq_of_le hmi with hmi | rfl
        · cases hai : below a l[i] with
          | true => rfl
          | false =>
            have := h.trans hmS (hl _ (List.getElem_mem hi)) ha (hrank _ _ hm hi hmi) hai
            exact absurd hab (by simp [this])
        · exact hab
      · rename_i hab
        have hab : below a l[low + (high - low) / 2] = false := by simpa using hab
        refine positionFor_parts h ha hl hs n _ high (by omega) (by omega) hlen ?_ hhigh
        intro i hi him
        rcases Nat.lt_or_eq_of_le (Nat.le_of_lt_succ him) with him | rfl
        · exact h.trans (hl _ (List.getElem_mem hi)) hmS ha (hrank _ _ hi hm him) hab
        · exact hab
    · have heq : low = high := by omega
      subst heq
      exact ⟨low, by simp [positionFor], hlow, hhigh⟩

theorem insertSorted_inOrder (h : Ranks below S) {a : α} (ha : S a) {l : List α}
    (hl : ∀ b ∈ l, S b) (hs : InOrder below l) : InOrder below (insertSorted below l a) := by
  obtain ⟨p, hp, hbefore, hafter⟩ := positionFor_parts h ha hl hs l.length 0 l.length
    (by omega) (by omega) (Nat.le_refl _) (by omega) (by omega)
  simp only [insertSorted, hp]
  have htake : ∀ b ∈ l.take p, below a b = false := by
    intro b hb
    obtain ⟨i, hi, rfl⟩ := List.getElem_of_mem hb
    rw [List.getElem_take]
    rw [List.length_take] at hi
    exact hbefore i (by omega) (by omega)
  have hdrop : ∀ b ∈ l.drop p, below a b = true := by
    intro b hb
    obtain ⟨i, hi, rfl⟩ := List.getElem_of_mem hb
    rw [List.getElem_drop]
    rw [List.length_drop] at hi
    exact hafter (p + i) (by omega) (by omega)
  have hparts : InOrder below (l.take p ++ l.drop p) := by rwa [List.take_append_drop]
  obtain ⟨h1, h2, h12⟩ := List.pairwise_append.1 hparts
  refine List.pairwise_append.2 ⟨h1, List.pairwise_cons.2 ⟨?_, h2⟩, ?_⟩
  · intro b hb
    exact h.asymm ha (hl b (List.mem_of_mem_drop hb)) (hdrop b hb)
  · intro b hb c hc
    rcases List.mem_cons.1 hc with rfl | hc
    · exact htake b hb
    · exact h12 b hb c hc

theorem foldl_insertSorted_inOrder (h : Ranks below S) :
    ∀ (rest front : List α), (∀ a ∈ rest, S a) → (∀ a ∈ front, S a) → InOrder below front →
      InOrder below (rest.foldl (insertSorted below) front)
  | [], _, _, _, hs => hs
  | a :: rest, front, hrest, hfront, hs => by
    obtain ⟨ha, hrest⟩ := List.forall_mem_cons.1 hrest
    refine foldl_insertSorted_inOrder h rest _ hrest ?_ (insertSorted_inOrder h ha hfront hs)
    intro b hb
    rcases List.mem_cons.1 ((insertSorted_perm below front a).mem_iff.1 hb) with rfl | hb
    · exact ha
    · exact hfront b hb

/-- A sorted list is in order, if the comparison ranks its elements. -/
theorem sortedBy_pairwise (h : Ranks below S) {l : List α} (hl : ∀ a ∈ l, S a) :
    InOrder below (sortedBy below l) := by
  have hperm := orderedFront_perm below l
  have hparts : ∀ a ∈ (orderedFront below l).1 ++ (orderedFront below l).2, S a :=
    fun a ha => hl a (hperm.mem_iff.1 ha)
  exact foldl_insertSorted_inOrder h _ _ (fun a ha => hparts a (List.mem_append_right _ ha))
    (fun a ha => hparts a (List.mem_append_left _ ha)) (orderedFront_inOrder h l hl)

/-- Where equal places mean equal elements, the sorted list depends on the elements alone. -/
theorem sortedBy_eq_of_perm (h : Ranks below S)
    (hanti : ∀ a b, S a → S b → below a b = false → below b a = false → a = b)
    {l l' : List α} (hl : ∀ a ∈ l, S a) (hperm : l.Perm l') :
    sortedBy below l = sortedBy below l' := by
  have hl' : ∀ a ∈ l', S a := fun a ha => hl a (hperm.mem_iff.2 ha)
  refine List.Perm.eq_of_pairwise ?_ (sortedBy_pairwise h hl) (sortedBy_pairwise h hl') ?_
  · intro a b ha hb hba hab
    exact hanti a b (hl a (mem_sortedBy.1 ha)) (hl' b (mem_sortedBy.1 hb)) hab hba
  · exact (sortedBy_perm _ l).trans (hperm.trans (sortedBy_perm _ l').symm)

end

/-! ## Lists that correspond -/

section

variable {β : Type} {R : α → β → Prop} {below : α → α → Bool} {below' : β → β → Bool}

/-- Comparisons give the same for elements that correspond. -/
def SameOrder (R : α → β → Prop) (below : α → α → Bool) (below' : β → β → Bool) : Prop :=
  ∀ a a' b b', R a a' → R b b' → below a b = below' a' b'

theorem rising_forall₂ (h : SameOrder R below below') {l : List α} {l' : List β}
    (hl : List.Forall₂ R l l') : ∀ {a a'}, R a a' →
      List.Forall₂ R (rising below a l).1 (rising below' a' l').1 ∧
      List.Forall₂ R (rising below a l).2 (rising below' a' l').2 := by
  induction hl with
  | nil => exact fun _ => ⟨.nil, .nil⟩
  | cons hb hbs ih =>
    intro a a' ha
    simp only [rising, h _ _ _ _ hb ha]
    split
    · exact ⟨.nil, .cons hb hbs⟩
    · exact ⟨.cons hb (ih hb).1, (ih hb).2⟩

theorem falling_forall₂ (h : SameOrder R below below') {l : List α} {l' : List β}
    (hl : List.Forall₂ R l l') : ∀ {a a'}, R a a' →
      List.Forall₂ R (falling below a l).1 (falling below' a' l').1 ∧
      List.Forall₂ R (falling below a l).2 (falling below' a' l').2 := by
  have hnot : SameOrder R (fun x y => !below x y) (fun x y => !below' x y) :=
    fun _ _ _ _ hx hy => congrArg not (h _ _ _ _ hx hy)
  intro a a' ha
  rw [falling_eq_rising, falling_eq_rising]
  exact rising_forall₂ hnot hl ha

theorem orderedFront_forall₂ (h : SameOrder R below below') {l : List α} {l' : List β}
    (hl : List.Forall₂ R l l') :
    List.Forall₂ R (orderedFront below l).1 (orderedFront below' l').1 ∧
      List.Forall₂ R (orderedFront below l).2 (orderedFront below' l').2 := by
  cases hl with
  | nil => exact ⟨.nil, .nil⟩
  | cons ha hl =>
    cases hl with
    | nil => exact ⟨.cons ha .nil, .nil⟩
    | cons hb hl =>
      obtain ⟨hrun, hrest⟩ := falling_forall₂ h hl hb
      obtain ⟨hrun', hrest'⟩ := rising_forall₂ h hl hb
      simp only [orderedFront, h _ _ _ _ hb ha]
      split
      · exact ⟨List.rel_reverse (.cons ha (.cons hb hrun)), hrest⟩
      · exact ⟨.cons ha (.cons hb hrun'), hrest'⟩

theorem getElem?_forall₂ {l : List α} {l' : List β} (hl : List.Forall₂ R l l') (i : Nat) :
    Option.Rel R l[i]? l'[i]? := by
  induction hl generalizing i with
  | nil => exact .none
  | cons ha _ ih =>
    cases i with
    | zero => exact .some ha
    | succ i => exact ih i

theorem positionFor_eq (h : SameOrder R below below') {l : List α} {l' : List β}
    (hl : List.Forall₂ R l l') {a : α} {a' : β} (ha : R a a') (n : Nat) :
    ∀ low high, positionFor below a l n low high = positionFor below' a' l' n low high := by
  induction n with
  | zero => exact fun _ _ => rfl
  | succ n ih =>
    intro low high
    have hmiddle := getElem?_forall₂ hl (low + (high - low) / 2)
    simp only [positionFor]
    revert hmiddle
    generalize l[low + (high - low) / 2]? = b, l'[low + (high - low) / 2]? = b'
    rintro (hb | _)
    · simp only [h _ _ _ _ ha hb, ih]
    · rfl

theorem insertSorted_forall₂ (h : SameOrder R below below') {l : List α} {l' : List β}
    (hl : List.Forall₂ R l l') {a : α} {a' : β} (ha : R a a') :
    List.Forall₂ R (insertSorted below l a) (insertSorted below' l' a') := by
  unfold insertSorted
  rw [positionFor_eq h hl ha, hl.length_eq]
  exact List.rel_append (List.forall₂_take _ hl) (.cons ha (List.forall₂_drop _ hl))

/-- Lists that correspond are sorted alike, whatever the comparison. -/
theorem sortedBy_forall₂ (h : SameOrder R below below') {l : List α} {l' : List β}
    (hl : List.Forall₂ R l l') : List.Forall₂ R (sortedBy below l) (sortedBy below' l') := by
  obtain ⟨hfront, hrest⟩ := orderedFront_forall₂ h hl
  exact List.rel_foldl (P := List.Forall₂ R) (R := R)
    (fun _ _ hl _ _ ha => insertSorted_forall₂ h hl ha) hfront hrest

end

/-! ## Texts -/

theorem not_below_iff {s t : String} : decide (s < t) = false ↔ t ≤ s :=
  decide_eq_false_iff_not.trans String.not_lt

/-- Elements that are compared by a text of theirs are ranked. -/
theorem ranks_of_text (key : α → String) :
    Ranks (fun a b => decide (key a < key b)) (fun _ => True) where
  asymm := by
    intro a b _ _ hab
    exact not_below_iff.2 (Std.le_of_lt (of_decide_eq_true hab))
  trans := by
    intro a b c _ _ _ hba hcb
    exact not_below_iff.2 (String.le_trans (not_below_iff.1 hba) (not_below_iff.1 hcb))

/-- Texts are sorted in one way, whatever their order before. -/
theorem sortedBy_text_eq_of_perm {l l' : List String} (hperm : l.Perm l') :
    sortedBy (fun s t => s < t) l = sortedBy (fun s t => s < t) l' :=
  sortedBy_eq_of_perm (ranks_of_text id)
    (fun _ _ _ _ hab hba => String.le_antisymm (not_below_iff.1 hba) (not_below_iff.1 hab))
    (fun _ _ => trivial) hperm

end ApiModels
