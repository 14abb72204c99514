/-
ApiModels.Proofs.Struct.Fingerprint — what a fingerprint tells.

A fingerprint writes the properties of a struct one after another, with two
marks between the parts: `:` inside a property, `|` between properties.
Names may hold marks as well. If no mark stands both in the names of properties
and in nested names, and neither kind of name holds both marks
(`Marks.Apart`), then two structs have one fingerprint exactly when their
properties are the same in name, type and nested name
(`fingerprintOf_eq_iff_of_apart`): the names with bars stand on one side of a
property and those with colons on the other (`Marks.Apart.sides`).

The last section shows that no mark comes into a name by titling: upper
case makes neither mark out of any other character, and something of every
other one.
-/
import ApiModels.Proofs.Value.Sorting
import ApiModels.Proofs.Text.Joined
import ApiModels.Struct.Assign

namespace ApiModels

/-! ## Texts without marks -/

/-- A text holds neither of the marks that part a fingerprint. -/
def Unmarked (s : String) : Prop := ':' ∉ s.toList ∧ '|' ∉ s.toList

instance (s : String) : Decidable (Unmarked s) :=
  inferInstanceAs (Decidable (':' ∉ s.toList ∧ '|' ∉ s.toList))

theorem unmarked_append {s t : String} : Unmarked (s ++ t) ↔ Unmarked s ∧ Unmarked t := by
  simp only [Unmarked, String.toList_append, List.mem_append, not_or]
  constructor
  · rintro ⟨⟨hs, ht⟩, hs', ht'⟩
    exact ⟨⟨hs, hs'⟩, ht, ht'⟩
  · rintro ⟨⟨hs, hs'⟩, ht, ht'⟩
    exact ⟨⟨hs, ht⟩, hs', ht'⟩

theorem unmarked_empty : Unmarked "" := by decide

/-- The marks that a text holds. -/
def marksIn (s : String) : List Char := s.toList.filter fun c => c == ':' || c == '|'

theorem mem_marksIn {s : String} {c : Char} :
    c ∈ marksIn s ↔ c ∈ s.toList ∧ (c = ':' ∨ c = '|') := by
  simp [marksIn]

theorem marksIn_append (s t : String) : marksIn (s ++ t) = marksIn s ++ marksIn t := by
  simp [marksIn]

theorem Unmarked.marksIn_eq_nil {s : String} (h : Unmarked s) : marksIn s = [] := by
  refine List.eq_nil_iff_forall_not_mem.2 fun c hc => ?_
  obtain ⟨hmem, rfl | rfl⟩ := mem_marksIn.1 hc
  · exact h.1 hmem
  · exact h.2 hmem

/-- A name is a text without marks. -/
def Scalar.Unmarked (name : Scalar) : Prop := ∃ s, name = .text s ∧ ApiModels.Unmarked s

namespace Field

theorem kindName_unmarked (k : AttrKind) : Unmarked k.name := by
  cases k <;> decide

theorem resolvedType_unmarked (f : Field) : Unmarked f.resolvedType := by
  unfold resolvedType
  cases f.typeMeta.elementKind with
  | none => exact kindName_unmarked _
  | some element =>
    have hopen : Unmarked "[" := by decide
    have hclose : Unmarked "]" := by decide
    simp only [unmarked_append]
    exact ⟨⟨⟨kindName_unmarked _, hopen⟩, kindName_unmarked _⟩, hclose⟩

/-! ## Telling fingerprints apart -/

/-- What a fingerprint keeps of a property: its name, its type and the nested name. -/
def kept (f : Field) : Scalar × String × String := (f.name, f.resolvedType, f.nestedRef)

theorem toList_signature (f : Field) {name : String} (hname : f.name = .text name) :
    f.signature.toList =
      name.toList ++ ':' :: (f.resolvedType.toList ++ ':' :: f.nestedRef.toList) := by
  simp [signature, hname, Scalar.display]

/-- Which marks may stand in the names of properties and in nested names. -/
structure Marks where
  inName : List Char
  inNested : List Char

/-- Neither kind of name may hold both marks, and no mark may stand in both kinds. -/
structure Marks.Apart (m : Marks) : Prop where
  inName : ¬ (':' ∈ m.inName ∧ '|' ∈ m.inName)
  inNested : ¬ (':' ∈ m.inNested ∧ '|' ∈ m.inNested)
  colon : ¬ (':' ∈ m.inName ∧ ':' ∈ m.inNested)
  bar : ¬ ('|' ∈ m.inName ∧ '|' ∈ m.inNested)

/-- The names in a property hold marks only where they may stand. -/
def Within (m : Marks) (f : Field) : Prop :=
  (∃ s, f.name = .text s ∧ marksIn s ⊆ m.inName) ∧ marksIn f.nestedRef ⊆ m.inNested

/-- Where marks are apart, names in front have no bars and names behind no colons, or reversely. -/
theorem Marks.Apart.sides {m : Marks} (h : m.Apart) :
    ('|' ∉ m.inName ∧ ':' ∉ m.inNested) ∨ (':' ∉ m.inName ∧ '|' ∉ m.inNested) := by
  by_cases hcolon : ':' ∈ m.inName
  · exact .inl ⟨fun hbar => h.inName ⟨hcolon, hbar⟩, fun hnested => h.colon ⟨hcolon, hnested⟩⟩
  · by_cases hbar : '|' ∈ m.inNested
    · exact .inl ⟨fun hname => h.bar ⟨hname, hbar⟩, fun hnested => h.inNested ⟨hnested, hbar⟩⟩
    · exact .inr ⟨hcolon, hbar⟩

section

variable {m : Marks} {f g : Field}

theorem Within.parted (hf : f.Within m) (hname : '|' ∉ m.inName) (hnested : ':' ∉ m.inNested) :
    ∃ name, f.name = .text name ∧
      Parted f.signature.toList name.toList f.resolvedType.toList f.nestedRef.toList := by
  obtain ⟨⟨name, hf, hmarks⟩, hnestedMarks⟩ := hf
  refine ⟨name, hf, toList_signature f hf, fun h => hname ?_, resolvedType_unmarked f,
    fun h => hnested ?_⟩
  · exact hmarks (mem_marksIn.2 ⟨h, .inr rfl⟩)
  · exact hnestedMarks (mem_marksIn.2 ⟨h, .inl rfl⟩)

theorem Within.reverse_parted (hf : f.Within m) (hname : ':' ∉ m.inName)
    (hnested : '|' ∉ m.inNested) :
    ∃ name, f.name = .text name ∧
      Parted f.signature.toList.reverse f.nestedRef.toList.reverse f.resolvedType.toList.reverse
        name.toList.reverse := by
  obtain ⟨⟨name, hf, hmarks⟩, hnestedMarks⟩ := hf
  refine ⟨name, hf, ?_, ?_, ?_, ?_⟩
  · simp [toList_signature f hf]
  · simpa using fun h => hnested (hnestedMarks (mem_marksIn.2 ⟨h, .inr rfl⟩))
  · simpa [Unmarked] using resolvedType_unmarked f
  · simpa using fun h => hname (hmarks (mem_marksIn.2 ⟨h, .inl rfl⟩))

/-- What is kept of a property can be told from its part of a fingerprint. -/
theorem kept_eq_of_signature_eq (hm : m.Apart) (hf : f.Within m) (hg : g.Within m)
    (h : f.signature = g.signature) : f.kept = g.kept := by
  have hparts : ∀ {s t : String}, f.name = .text s → g.name = .text t → s.toList = t.toList →
      f.resolvedType.toList = g.resolvedType.toList → f.nestedRef.toList = g.nestedRef.toList →
      f.kept = g.kept := by
    intro s t hs ht hname htype hnested
    rw [kept, kept, hs, ht, String.toList_inj.1 hname, String.toList_inj.1 htype,
      String.toList_inj.1 hnested]
  rcases hm.sides with ⟨hname, hnested⟩ | ⟨hname, hnested⟩
  · obtain ⟨s, hs, hparted⟩ := hf.parted hname hnested
    obtain ⟨t, ht, hparted'⟩ := hg.parted hname hnested
    rw [h] at hparted
    obtain ⟨hname, htype, hnested⟩ := hparted.unique hparted'
    exact hparts hs ht hname htype hnested
  · obtain ⟨s, hs, hparted⟩ := hf.reverse_parted hname hnested
    obtain ⟨t, ht, hparted'⟩ := hg.reverse_parted hname hnested
    rw [h] at hparted
    obtain ⟨hnested, htype, hname⟩ := hparted.unique hparted'
    exact hparts hs ht (List.reverse_inj.1 hname) (List.reverse_inj.1 htype)
      (List.reverse_inj.1 hnested)

end

theorem toList_fingerprintOf (properties : List Field) :
    (fingerprintOf properties).toList = Text.joinWith '|'
      ((sortedBy (fun s t => s < t) (properties.map signature)).map String.toList) := by
  rw [fingerprintOf, String.toList_intercalate, ← Text.joinWith_eq_intercalate]
  rfl

/-- Where marks are apart, one fingerprint is made of the same properties, each as often. -/
theorem signatures_perm_of_fingerprintOf_eq {m : Marks} (hm : m.Apart) {ps qs : List Field}
    (hps : ∀ f ∈ ps, f.Within m) (hqs : ∀ f ∈ qs, f.Within m)
    (h : fingerprintOf ps = fingerprintOf qs) : (ps.map signature).Perm (qs.map signature) := by
  have hchars := congrArg String.toList h
  rw [toList_fingerprintOf, toList_fingerprintOf] at hchars
  have hsorted : ∀ {fs : List Field} {P : List Char → Prop}, (∀ f ∈ fs, P f.signature.toList) →
      ∀ t ∈ (sortedBy (fun s t : String => s < t) (fs.map signature)).map String.toList, P t := by
    intro fs P hfs
    refine List.forall_mem_map.2 fun s hs => ?_
    obtain ⟨f, hf, rfl⟩ := List.mem_map.1 (mem_sortedBy.1 hs)
    exact hfs f hf
  have hsame : sortedBy (fun s t : String => s < t) (ps.map signature) =
      sortedBy (fun s t => s < t) (qs.map signature) := by
    refine List.map_injective_iff.2 (fun _ _ => String.toList_inj.1) ?_
    rcases hm.sides with ⟨hname, hnested⟩ | ⟨hname, hnested⟩
    · have hparted : ∀ f : Field, f.Within m → IsParted f.signature.toList := fun f hf =>
        have ⟨_, _, h⟩ := hf.parted hname hnested
        ⟨_, _, _, h⟩
      exact joinWith_inj_of_parted (hsorted fun f hf => hparted f (hps f hf))
        (hsorted fun f hf => hparted f (hqs f hf)) hchars
    · have hparted : ∀ f : Field, f.Within m → IsParted f.signature.toList.reverse := fun f hf =>
        have ⟨_, _, h⟩ := hf.reverse_parted hname hnested
        ⟨_, _, _, h⟩
      exact joinWith_inj_of_reverse_parted (hsorted fun f hf => hparted f (hps f hf))
        (hsorted fun f hf => hparted f (hqs f hf)) hchars
  have hps := sortedBy_perm (fun s t : String => decide (s < t)) (ps.map signature)
  rw [hsame] at hps
  exact hps.symm.trans (sortedBy_perm _ _)

/-- Lists that agree in one image, with the multiplicities, agree in all that it decides. -/
theorem map_perm_of_map_perm {α β γ : Type} {f : α → β} {g : α → γ} {as bs : List α}
    (h : ∀ a ∈ as, ∀ b ∈ bs, f a = f b → g a = g b) (hperm : (as.map f).Perm (bs.map f)) :
    (as.map g).Perm (bs.map g) := by
  induction as generalizing bs with
  | nil =>
    rw [List.map_nil, List.nil_perm, List.map_eq_nil_iff] at hperm
    rw [hperm]
  | cons a as ih =>
    obtain ⟨b, hb, hab⟩ := List.mem_map.1 (hperm.mem_iff.1 List.mem_cons_self)
    obtain ⟨before, after, rfl⟩ := List.append_of_mem hb
    have hfront : (before ++ b :: after).Perm (b :: (before ++ after)) := List.perm_middle
    have hrest := hperm.trans (hfront.map f)
    rw [List.map_cons, List.map_cons, hab] at hrest
    have hg : g a = g b := h a List.mem_cons_self b hb hab.symm
    refine List.Perm.trans ?_ (hfront.map g).symm
    rw [List.map_cons, List.map_cons, hg]
    refine (ih (fun a' ha' b' hb' => h a' (List.mem_cons_of_mem _ ha') b' ?_)
      (List.perm_cons _ |>.1 hrest)).cons _
    exact hfront.mem_iff.2 (List.mem_cons_of_mem _ hb')

/-- Structs with the same properties have one fingerprint. -/
theorem fingerprintOf_eq_of_kept_perm {ps qs : List Field}
    (h : (ps.map kept).Perm (qs.map kept)) : fingerprintOf ps = fingerprintOf qs := by
  have hsignature : ∀ fs : List Field, fs.map signature =
      (fs.map kept).map fun k => k.1.display ++ ":" ++ k.2.1 ++ ":" ++ k.2.2 := by
    intro fs
    rw [List.map_map]
    rfl
  unfold fingerprintOf
  rw [hsignature ps, hsignature qs]
  exact congrArg _ (sortedBy_text_eq_of_perm (h.map _))

/-- Where marks are apart, structs with one fingerprint have the same properties. -/
theorem fingerprintOf_eq_iff_of_apart {m : Marks} (hm : m.Apart) {ps qs : List Field}
    (hps : ∀ f ∈ ps, f.Within m) (hqs : ∀ f ∈ qs, f.Within m) :
    fingerprintOf ps = fingerprintOf qs ↔ (ps.map kept).Perm (qs.map kept) := by
  refine ⟨fun h => ?_, fingerprintOf_eq_of_kept_perm⟩
  refine map_perm_of_map_perm (fun f hf g hg => ?_)
    (signatures_perm_of_fingerprintOf_eq hm hps hqs h)
  exact kept_eq_of_signature_eq hm (hps f hf) (hqs g hg)

/-- A property that can be told inside a fingerprint: no mark in its name, no `|` in the nested. -/
def Legible (f : Field) : Prop := f.name.Unmarked ∧ '|' ∉ f.nestedRef.toList

theorem Legible.within {f : Field} (h : f.Legible) : f.Within ⟨[], [':']⟩ := by
  obtain ⟨⟨s, hs, hunmarked⟩, hbar⟩ := h
  refine ⟨⟨s, hs, List.subset_nil.2 hunmarked.marksIn_eq_nil⟩, fun c hc => ?_⟩
  obtain ⟨hmem, rfl | rfl⟩ := mem_marksIn.1 hc
  · exact List.mem_singleton_self _
  · exact absurd hmem hbar

/-- Two structs have one fingerprint exactly when their properties agree in what it keeps. -/
theorem fingerprintOf_eq_iff {ps qs : List Field} (hps : ∀ f ∈ ps, f.Legible)
    (hqs : ∀ f ∈ qs, f.Legible) :
    fingerprintOf ps = fingerprintOf qs ↔ (ps.map kept).Perm (qs.map kept) :=
  fingerprintOf_eq_iff_of_apart ⟨by decide, by decide, by decide, by decide⟩
    (fun f hf => (hps f hf).within) fun f hf => (hqs f hf).within

end Field

/-! ## Titling brings no marks -/

namespace Text

/-- No image of a run is a mark. -/
theorem upperRuns_avoid {code : Nat} (hcode : code = 58 ∨ code = 124) :
    ∀ r ∈ upperRuns, (r.last : Int) + r.shift < code ∨ (code : Int) < r.first + r.shift := by
  rcases hcode with rfl | rfl <;> decide +kernel

theorem upperExpansions_avoid : ∀ e ∈ upperExpansions, 58 ∉ e.2 ∧ 124 ∉ e.2 ∧ e.2 ≠ [] := by
  decide +kernel

theorem toNat_ofNat_eq {n code : Nat} (hcode : code ≠ 0) (h : (Char.ofNat n).toNat = code) :
    n = code := by
  by_cases hvalid : n.isValidChar
  · rw [Char.ofNat, dif_pos hvalid] at h
    exact h
  · rw [Char.ofNat, dif_neg hvalid] at h
    exact absurd h.symm hcode

/-- A mark is the upper case of nothing but itself. -/
theorem eq_of_mark_mem_upperChar {c d : Char} (hd : d = ':' ∨ d = '|') (h : d ∈ upperChar c) :
    c = d := by
  have hcode : d.toNat = 58 ∨ d.toNat = 124 := by
    rcases hd with rfl | rfl
    · exact .inl rfl
    · exact .inr rfl
  have hne : d.toNat ≠ 0 := by omega
  unfold upperChar at h
  split at h
  · rename_i e he
    obtain ⟨n, hn, hnd⟩ := List.mem_map.1 h
    have hn' : n = d.toNat := toNat_ofNat_eq hne (congrArg Char.toNat hnd)
    obtain ⟨h58, h124, -⟩ := upperExpansions_avoid e (List.mem_of_find?_eq_some he)
    rcases hcode with hcode | hcode
    · exact absurd (hcode ▸ hn' ▸ hn) h58
    · exact absurd (hcode ▸ hn' ▸ hn) h124
  · have hmap : CaseRun.map upperRuns c.toNat = d.toNat :=
      toNat_ofNat_eq hne (congrArg Char.toNat (List.mem_singleton.1 h).symm)
    unfold CaseRun.map at hmap
    split at hmap
    · rename_i r hr
      have hcovers := List.find?_some hr
      have hrange := upperRuns_avoid hcode r (List.mem_of_find?_eq_some hr)
      simp only [CaseRun.covers, Bool.and_eq_true, decide_eq_true_eq] at hcovers
      omega
    · exact Char.ext (UInt32.toNat_inj.1 hmap)

theorem upperChar_ne_nil (c : Char) : upperChar c ≠ [] := by
  unfold upperChar
  split
  · rename_i e he
    have := (upperExpansions_avoid e (List.mem_of_find?_eq_some he)).2.2
    simpa using this
  · simp

theorem exists_mem_splitOn {c d : Char} (hne : d ≠ c) :
    ∀ {cs : List Char}, d ∈ cs → ∃ piece ∈ splitOn c cs, d ∈ piece
  | x :: xs, hd => by
    simp only [splitOn]
    split
    · rename_i hx
      rcases List.mem_cons.1 hd with rfl | hd
      · exact absurd (by simpa using hx) hne
      · obtain ⟨piece, hpiece, hmem⟩ := exists_mem_splitOn hne hd
        exact ⟨piece, List.mem_cons_of_mem _ hpiece, hmem⟩
    · split
      · rcases List.mem_cons.1 hd with rfl | hd
        · exact ⟨_, List.mem_cons_self, List.mem_cons_self⟩
        · obtain ⟨piece, hpiece, -⟩ := exists_mem_splitOn hne hd
          simp_all
      · rename_i first pieces hsplit
        rcases List.mem_cons.1 hd with rfl | hd
        · exact ⟨_, List.mem_cons_self, List.mem_cons_self⟩
        · obtain ⟨piece, hpiece, hmem⟩ := exists_mem_splitOn hne hd
          rw [hsplit] at hpiece
          rcases List.mem_cons.1 hpiece with rfl | hpiece
          · exact ⟨_, List.mem_cons_self, List.mem_cons_of_mem _ hmem⟩
          · exact ⟨piece, List.mem_cons_of_mem _ hpiece, hmem⟩

end Text

namespace Name

theorem titled_ne_empty {name : String} (h : ∃ c ∈ name.toList, c ≠ '_') : titled name ≠ "" := by
  obtain ⟨c, hc, hne⟩ := h
  obtain ⟨piece, hpiece, hmem⟩ := Text.exists_mem_splitOn hne hc
  have hcapital : capitalized piece ≠ [] := by
    cases piece with
    | nil => cases hmem
    | cons d ds =>
      intro hnil
      exact Text.upperChar_ne_nil d (List.append_eq_nil_iff.1 hnil).1
  intro hempty
  have hnil : (Text.splitOn '_' name.toList).flatMap capitalized = [] := by
    simpa [titled] using hempty
  exact hcapital (List.flatMap_eq_nil_iff.1 hnil piece hpiece)

theorem mark_mem_capitalized {d : Char} (hd : d = ':' ∨ d = '|') {cs : List Char}
    (h : d ∈ capitalized cs) : d ∈ cs := by
  cases cs with
  | nil => simp [capitalized] at h
  | cons c cs =>
    rcases List.mem_append.1 h with h | h
    · simp [Text.eq_of_mark_mem_upperChar hd h]
    · exact List.mem_cons_of_mem _ h

theorem titled_unmarked {name : String} (h : Unmarked name) : Unmarked (titled name) := by
  have hmark : ∀ d : Char, d = ':' ∨ d = '|' → d ∉ name.toList → d ∉ (titled name).toList := by
    intro d hd hname hmem
    rw [titled, String.toList_ofList] at hmem
    obtain ⟨piece, hpiece, hmem⟩ := List.mem_flatMap.1 hmem
    exact hname (Text.mem_of_mem_splitOn hpiece (mark_mem_capitalized hd hmem))
  exact ⟨hmark _ (.inl rfl) h.1, hmark _ (.inr rfl) h.2⟩

end Name

namespace NameRegistry

/-- A number is written without marks. -/
theorem toString_unmarked (n : Nat) : Unmarked (toString n) := by
  have hdigit : ∀ c ∈ (toString n).toList, c.isDigit = true := by
    intro c hc
    rw [show toString n = Nat.repr n from rfl, Nat.repr_eq_ofList_toDigits,
      String.toList_ofList] at hc
    exact Nat.isDigit_of_mem_toDigits (by omega) (by omega) hc
  constructor
  · intro hc
    exact absurd (hdigit _ hc) (by decide)
  · intro hc
    exact absurd (hdigit _ hc) (by decide)

theorem numbered_unmarked {candidate : String} (h : Unmarked candidate) (n : Nat) :
    Unmarked (numbered candidate n) := by
  cases n with
  | zero => exact h
  | succ n => exact unmarked_append.2 ⟨h, toString_unmarked _⟩

/-- The numbered forms of a candidate hold the same marks. -/
theorem marksIn_numbered (candidate : String) (n : Nat) :
    marksIn (numbered candidate n) = marksIn candidate := by
  cases n with
  | zero => rfl
  | succ n =>
    rw [numbered, marksIn_append, (toString_unmarked _).marksIn_eq_nil, List.append_nil]

end NameRegistry

end ApiModels
