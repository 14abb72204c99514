/-
ApiModels.Proofs.Json.Number — numbers are read as they are written.

A whole number is written by its digits and read back (`number_toDigits`). A
double is written by significant digits in one of three layouts; all of them
read as the decimal number of these digits (`number_layOut`), and so as the
double itself if it has its one form (`reread_of_proper`).

What is written of a number must not be followed by anything that could belong
to it: in JSON text it is followed by a comma, by a closing bracket or by nothing
(`Delimited`).
-/
import ApiModels.Json.Parser
import ApiModels.Json.Printer
import ApiModels.Proofs.Number.Decimal

namespace ApiModels.Json

open Binary64 (digitCount ofDecimal)

/-! ## Runs of digits -/

/-- A text does not start with a digit. -/
def NoDigit (cs : List Char) : Prop := ∀ c rest, cs = c :: rest → c.isDigit = false

/-- A text is empty, or starts with what stands after a value. -/
def Delimited (cs : List Char) : Prop :=
  ∀ c rest, cs = c :: rest → c = ',' ∨ c = ']' ∨ c = '\x7d'

/-- All characters of a text are digits. -/
def AllDigits (cs : List Char) : Prop := ∀ c ∈ cs, c.isDigit = true

variable {ds fs ws cs rest : List Char} {n : Nat} {negative : Bool}

theorem noDigit_cons {c : Char} (h : c.isDigit = false) : NoDigit (c :: cs) := by
  rintro _ _ ⟨⟩
  exact h

theorem Delimited.noDigit (h : Delimited cs) : NoDigit cs := by
  rintro c rest rfl
  rcases h c rest rfl with rfl | rfl | rfl <;> rfl

theorem allDigits_toDigits (n : Nat) : AllDigits (Nat.toDigits 10 n) :=
  fun _ => Nat.isDigit_of_mem_toDigits (by decide) (by decide)

theorem allDigits_zeros (k : Nat) : AllDigits (List.replicate k '0') := by
  intro c hc
  rw [List.eq_of_mem_replicate hc]
  rfl

theorem AllDigits.append (hds : AllDigits ds) (hfs : AllDigits fs) : AllDigits (ds ++ fs) :=
  fun c hc => (List.mem_append.1 hc).elim (hds c) (hfs c)

theorem digits_append (hds : AllDigits ds) (hcs : NoDigit cs) : digits (ds ++ cs) = (ds, cs) := by
  unfold digits
  rw [List.takeWhile_append_of_pos hds, List.dropWhile_append_of_pos hds]
  cases cs with
  | nil => simp
  | cons c rest =>
    have hc := hcs c rest rfl
    rw [List.takeWhile_cons_of_neg (by simp [hc]), List.dropWhile_cons_of_neg (by simp [hc]),
      List.append_nil]

theorem decimalValue_eq (ds : List Char) : decimalValue ds = Nat.ofDigitChars 10 ds 0 := rfl

@[simp] theorem decimalValue_toDigits (n : Nat) : decimalValue (Nat.toDigits 10 n) = n :=
  Nat.ofDigitChars_ten_toDigits

theorem decimalValue_append (ds : List Char) (k : Nat) :
    decimalValue (ds ++ List.replicate k '0') = decimalValue ds * 10 ^ k := by
  rw [decimalValue_eq, decimalValue_eq, Nat.ofDigitChars_append, Nat.ofDigitChars_replicate_zero,
    Nat.mul_comm]

theorem decimalValue_zeros_append (k : Nat) (ds : List Char) :
    decimalValue (List.replicate k '0' ++ ds) = decimalValue ds := by
  rw [decimalValue_eq, decimalValue_eq, Nat.ofDigitChars_append, Nat.ofDigitChars_replicate_zero,
    Nat.mul_zero]

theorem toNat_le_of_isDigit {c : Char} (h : c.isDigit = true) : c.toNat - '0'.toNat ≤ 9 := by
  simp only [Char.isDigit, Bool.and_eq_true, decide_eq_true_eq, UInt32.le_iff_toNat_le] at h
  exact Nat.sub_le_of_le_add h.2

/-- Digits denote a number that has no more of them. -/
theorem decimalValue_lt (hds : AllDigits ds) : decimalValue ds < 10 ^ ds.length := by
  have hfrom : ∀ (ds : List Char), AllDigits ds → ∀ init,
      Nat.ofDigitChars 10 ds init < (init + 1) * 10 ^ ds.length := by
    intro ds
    induction ds with
    | nil => exact fun _ init => by simp
    | cons d ds ih =>
      intro hds init
      obtain ⟨hd, hds⟩ := List.forall_mem_cons.1 hds
      have hdigit := toNat_le_of_isDigit hd
      rw [Nat.ofDigitChars_cons, List.length_cons]
      calc Nat.ofDigitChars 10 ds (10 * init + (d.toNat - '0'.toNat))
          < (10 * init + (d.toNat - '0'.toNat) + 1) * 10 ^ ds.length := ih hds _
        _ ≤ ((init + 1) * 10) * 10 ^ ds.length := Nat.mul_le_mul_right _ (by omega)
        _ = (init + 1) * 10 ^ (ds.length + 1) := by rw [Nat.pow_succ', Nat.mul_assoc]
  have h := hfrom ds hds 0
  rwa [zero_add, one_mul] at h

/-! ## The parts of a number -/

/-- The digits before the point: at least one, and no zero before others. -/
structure Whole (ws : List Char) : Prop where
  digits : AllDigits ws
  nonempty : ws ≠ []
  leading : ∀ rest, ws = '0' :: rest → rest = []

theorem whole_zero : Whole ['0'] :=
  ⟨List.forall_mem_singleton.2 rfl, nofun, fun _ h => (List.cons.inj h).2.symm⟩

theorem head_toDigits (hn : 0 < n) : ∀ rest, Nat.toDigits 10 n ≠ '0' :: rest := by
  induction n using Nat.strong_induction_on with
  | _ n ih =>
    intro rest heq
    rw [Nat.toDigits_eq_if (by decide)] at heq
    split at heq
    · have hzero : Nat.digitChar n = '0' := (List.cons.inj heq).1
      rw [Nat.digitChar_eq_zero] at hzero
      omega
    · cases hds : Nat.toDigits 10 (n / 10) with
      | nil =>
        have := Nat.length_toDigits_pos (b := 10) (n := n / 10)
        rw [hds] at this
        cases this
      | cons d ds =>
        rw [hds] at heq
        exact ih (n / 10) (by omega) (by omega) ds ((List.cons.inj heq).1 ▸ hds)

theorem whole_toDigits (n : Nat) : Whole (Nat.toDigits 10 n) where
  digits := allDigits_toDigits n
  nonempty := List.ne_nil_of_length_pos Nat.length_toDigits_pos
  leading := by
    intro rest heq
    rcases Nat.eq_zero_or_pos n with rfl | hn
    · rw [Nat.toDigits_zero] at heq
      exact (List.cons.inj heq).2.symm
    · exact absurd heq (head_toDigits hn rest)

/-- A number is read in parts: first the digits before the point. -/
theorem number_of_whole (hws : Whole ws) (hcs : NoDigit cs) :
    number negative (ws ++ cs) =
      (if (fraction cs).1.isEmpty && (exponent (fraction cs).2).1.isNone then
        if Number.greatestLength < ws.length then .error (.tooManyDigits ws.length)
        else .ok (.int (if negative then -(decimalValue (ws ++ (fraction cs).1) : Int)
          else decimalValue (ws ++ (fraction cs).1)), (exponent (fraction cs).2).2)
      else .ok (.float (ofDecimal negative (decimalValue (ws ++ (fraction cs).1))
        ((exponent (fraction cs).2).1.getD 0 - (fraction cs).1.length)),
        (exponent (fraction cs).2).2)) := by
  obtain ⟨hdigits, hne, hleading⟩ := hws
  cases ws with
  | nil => exact absurd rfl hne
  | cons w ws =>
    unfold number
    by_cases hw : w = '0'
    · subst hw
      obtain rfl := hleading ws rfl
      rfl
    · have hrun := digits_append hdigits hcs
      rw [List.cons_append] at hrun ⊢
      split
      · rename_i heq
        exact absurd (List.cons.inj heq).1 hw
      · rw [hrun]

theorem fraction_none (h : ∀ rest, cs ≠ '.' :: rest) : fraction cs = ([], cs) := by
  unfold fraction
  split
  · exact absurd rfl (h _)
  · rfl

theorem fraction_digits (hfs : AllDigits fs) (hne : fs ≠ []) (hcs : NoDigit cs) :
    fraction ('.' :: (fs ++ cs)) = (fs, cs) := by
  unfold fraction
  simp only [digits_append hfs hcs]
  cases fs with
  | nil => exact absurd rfl hne
  | cons _ _ => rfl

theorem exponent_none (h : Delimited cs) : exponent cs = (none, cs) := by
  cases cs with
  | nil => rfl
  | cons c rest => rcases h c rest rfl with rfl | rfl | rfl <;> rfl

theorem exponent_text (style : DecimalStyle) (x : Int) (hcs : NoDigit cs) :
    exponent ('e' :: (style.exponentText x ++ cs)) = (some x, cs) := by
  have hvalue : ∀ k, decimalValue (List.replicate k '0' ++ Nat.toDigits 10 x.natAbs) = x.natAbs :=
    fun k => by rw [decimalValue_zeros_append, decimalValue_toDigits]
  have hrun : ∀ k, digits (List.replicate k '0' ++ Nat.toDigits 10 x.natAbs ++ cs) =
      (List.replicate k '0' ++ Nat.toDigits 10 x.natAbs, cs) := fun k =>
    digits_append ((allDigits_zeros k).append (allDigits_toDigits _)) hcs
  have hne : ∀ k, (List.replicate k '0' ++ Nat.toDigits 10 x.natAbs).isEmpty = false := fun k =>
    List.isEmpty_eq_false_iff.2 (List.append_ne_nil_of_right_ne_nil _ (whole_toDigits _).nonempty)
  unfold DecimalStyle.exponentText exponent
  split_ifs with hx
  · simp only [List.cons_append, hrun, hne, hvalue]
    simp [abs_of_neg hx]
  · simp only [List.cons_append, hrun, hne, hvalue]
    simp [abs_of_nonneg (not_lt.1 hx)]

/-! ## Whole numbers and doubles -/

theorem isTooLong_eq_false_iff (n : Int) : Number.isTooLong n = false ↔
    (Nat.toDigits 10 n.natAbs).length ≤ Number.greatestLength := by
  have hpos : 0 < Number.greatestLength := by decide
  unfold Number.isTooLong
  generalize Number.greatestLength = k at *
  rw [Nat.length_toDigits_le_iff (by decide) hpos, decide_eq_false_iff_not, not_le]
  exact .rfl

/-- A whole number reads as it is written. -/
theorem number_toDigits (negative : Bool)
    (hn : (Nat.toDigits 10 n).length ≤ Number.greatestLength) (hrest : Delimited rest) :
    number negative (Nat.toDigits 10 n ++ rest) =
      .ok (.int (if negative then -(n : Int) else n), rest) := by
  have hpoint : fraction rest = ([], rest) := by
    refine fraction_none fun cs heq => ?_
    rcases hrest _ _ heq with h | h | h <;> cases h
  rw [number_of_whole (whole_toDigits n) hrest.noDigit]
  simp only [hpoint, exponent_none hrest, List.append_nil, decimalValue_toDigits,
    List.isEmpty_nil, Option.isNone_none, Bool.and_self, if_true, if_neg (not_lt.2 hn)]

/-- A number with a fraction reads as a double. -/
theorem number_fraction (negative : Bool) (hws : Whole ws) (hfs : AllDigits fs) (hne : fs ≠ [])
    (hrest : Delimited rest) : number negative (ws ++ '.' :: (fs ++ rest)) =
      .ok (.float (ofDecimal negative (decimalValue (ws ++ fs)) (-(fs.length : Int))), rest) := by
  have hempty : fs.isEmpty = false := List.isEmpty_eq_false_iff.2 hne
  rw [number_of_whole hws (noDigit_cons rfl), fraction_digits hfs hne hrest.noDigit]
  simp only [exponent_none hrest, hempty, Bool.false_and, Bool.false_eq_true, if_false,
    Option.getD_none, zero_sub]

/-- A number with an exponent reads as a double. -/
theorem number_exponent (negative : Bool) (style : DecimalStyle) (x : Int) (hws : Whole ws)
    (hfs : AllDigits fs) (hrest : Delimited rest) :
    number negative (ws ++ ((if fs.isEmpty then [] else '.' :: fs) ++
        'e' :: (style.exponentText x ++ rest))) =
      .ok (.float (ofDecimal negative (decimalValue (ws ++ fs)) (x - (fs.length : Int))),
        rest) := by
  have htext := exponent_text style x hrest.noDigit
  cases fs with
  | nil =>
    have hpoint : fraction ('e' :: (style.exponentText x ++ rest)) = ([], _) :=
      fraction_none (fun _ => nofun)
    simp only [List.isEmpty_nil, if_true, List.nil_append]
    rw [number_of_whole hws (noDigit_cons rfl), hpoint, htext]
    simp
  | cons f fs =>
    have hpoint : fraction ('.' :: f :: (fs ++ 'e' :: (style.exponentText x ++ rest))) =
        (f :: fs, 'e' :: (style.exponentText x ++ rest)) :=
      fraction_digits hfs nofun (noDigit_cons rfl)
    simp only [List.isEmpty_cons, Bool.false_eq_true, if_false, List.cons_append]
    rw [number_of_whole hws (noDigit_cons rfl), hpoint, htext]
    simp

theorem whole_of_head {d : Char} (hd : d ≠ '0') (hws : AllDigits (d :: ws)) : Whole (d :: ws) :=
  ⟨hws, nofun, fun _ heq => absurd (List.cons.inj heq).1 hd⟩

theorem AllDigits.sublist (h : AllDigits ds) (hsub : fs.Sublist ds) : AllDigits fs :=
  fun c hc => h c (hsub.subset hc)

/-- Digits that end before the point: zeros fill the place, and one follows the point. -/
theorem number_zeros (negative : Bool) {d : Char} (hd : d ≠ '0') (hds : AllDigits (d :: ds))
    (zeros : Nat) (hrest : Delimited rest) :
    number negative (d :: (ds ++ List.replicate zeros '0') ++ '.' :: '0' :: rest) =
      .ok (.float (ofDecimal negative (decimalValue (d :: ds)) zeros), rest) := by
  have hwhole : Whole (d :: (ds ++ List.replicate zeros '0')) :=
    whole_of_head hd (hds.append (allDigits_zeros zeros))
  have hread := number_fraction negative hwhole (allDigits_zeros 1) nofun hrest
  have hall : decimalValue (d :: (ds ++ List.replicate zeros '0') ++ List.replicate 1 '0') =
      decimalValue (d :: ds) * 10 ^ (zeros + 1) := by
    rw [← List.cons_append, List.append_assoc, ← List.replicate_add, decimalValue_append]
  have hshift := Binary64.ofDecimal_shift negative (decimalValue (d :: ds)) (zeros + 1) zeros
  have hexponent : (zeros : Int) - (zeros + 1 : Nat) =
      -((List.replicate 1 '0').length : Int) := by
    rw [List.length_replicate]
    omega
  rw [hexponent] at hshift
  rwa [hall, hshift] at hread

/-- Digits with the point among them. -/
theorem number_split (negative : Bool) {d : Char} (hd : d ≠ '0') (hds : AllDigits (d :: ds))
    {k : Nat} (hk : k < ds.length) (hrest : Delimited rest) :
    number negative (d :: ds.take k ++ '.' :: (ds.drop k ++ rest)) =
      .ok (.float (ofDecimal negative (decimalValue (d :: ds)) (k - ds.length)), rest) := by
  have hread := number_fraction negative
    (whole_of_head hd (hds.sublist ((List.take_sublist k ds).cons_cons d)))
    (hds.sublist ((List.drop_sublist k ds).cons d))
    (List.ne_nil_of_length_pos (by rw [List.length_drop]; omega)) hrest
  have hall : d :: ds.take k ++ ds.drop k = d :: ds := by
    rw [List.cons_append, List.take_append_drop]
  have hexponent : -((ds.drop k).length : Int) = k - ds.length := by
    rw [List.length_drop]
    omega
  rwa [hall, hexponent] at hread

/-- Digits behind the point: zeros stand before them. -/
theorem number_small (negative : Bool) (hds : AllDigits ds) (hne : ds ≠ []) (k : Nat)
    (hrest : Delimited rest) :
    number negative ('0' :: '.' :: (List.replicate k '0' ++ ds ++ rest)) =
      .ok (.float (ofDecimal negative (decimalValue ds) (-(k + ds.length : Nat))), rest) := by
  have hread := number_fraction negative whole_zero ((allDigits_zeros k).append hds)
    (List.append_ne_nil_of_right_ne_nil _ hne) hrest
  have hall : decimalValue (['0'] ++ (List.replicate k '0' ++ ds)) = decimalValue ds := by
    rw [← List.append_assoc, show ['0'] = List.replicate 1 '0' from rfl, ← List.replicate_add,
      decimalValue_zeros_append]
  rwa [hall, List.length_append, List.length_replicate] at hread

/-- Digits in any layout read as the decimal number whose first digit stands at the exponent. -/
theorem number_layOut (negative : Bool) (hn : 0 < n) (log : Int) (hrest : Delimited rest) :
    number negative (DecimalStyle.document.layOut (Nat.toDigits 10 n) log ++ rest) =
      .ok (.float (ofDecimal negative n (log + 1 - digitCount n)), rest) := by
  have hdigits := allDigits_toDigits n
  have hvalue := decimalValue_toDigits n
  obtain ⟨d, ds, hds⟩ : ∃ d ds, Nat.toDigits 10 n = d :: ds :=
    List.exists_cons_of_ne_nil (whole_toDigits n).nonempty
  have hd : d ≠ '0' := fun h => head_toDigits hn ds (h ▸ hds)
  unfold digitCount
  rw [hds] at hdigits hvalue ⊢
  rw [← hvalue, List.length_cons]
  unfold DecimalStyle.layOut
  split_ifs with hrange
  · cases log with
    | ofNat k =>
      simp only [List.take_succ_cons, List.drop_succ_cons]
      by_cases hlength : ds.length ≤ k
      · have hread := number_zeros negative hd hdigits (k - ds.length) hrest
        rw [List.take_of_length_le hlength, List.drop_eq_nil_of_le hlength]
        rw [Nat.cast_sub hlength] at hread
        simpa using hread
      · have hempty : (ds.drop k).isEmpty = false := by
          rw [List.isEmpty_eq_false_iff]
          exact List.ne_nil_of_length_pos (by rw [List.length_drop]; omega)
        have hfull : k - min k ds.length = 0 := by omega
        simpa [hempty, hfull] using number_split negative hd hdigits (not_le.1 hlength) hrest
    | negSucc k =>
      have hread := number_small negative hdigits nofun k hrest
      have hexponent : -((k + (d :: ds).length : Nat) : Int) =
          Int.negSucc k + 1 - (ds.length + 1 : Nat) := by
        rw [List.length_cons]
        omega
      rw [hexponent] at hread
      simpa using hread
  · have hread := number_exponent negative DecimalStyle.document log
      (whole_of_head hd (List.forall_mem_singleton.2 (hdigits d List.mem_cons_self)))
      (hdigits.sublist (List.sublist_cons_self d ds)) hrest
    have hexponent : log - (ds.length : Int) = log + 1 - (ds.length + 1 : Nat) := by omega
    rw [List.singleton_append, hexponent] at hread
    simpa using hread

/-- What follows a sign in the text of a finite double. -/
def magnitude (m : Nat) (e : Int) : List Char :=
  if m = 0 then ['0', '.', '0']
  else
    let d := Decimal.shortest (.finite false m e) (Binary64.scale m 1 (-e)).1
      (Binary64.scale m 1 (-e)).2
    DecimalStyle.document.layOut (DecimalStyle.significant d.digits)
      (d.exponent + (digitCount d.digits : Int) - 1)

theorem write_finite (s : Bool) (m : Nat) (e : Int) :
    (DecimalStyle.document.write (.finite s m e)).toList =
      (if s then ['-'] else []) ++ magnitude m e := by
  unfold DecimalStyle.write magnitude
  simp only
  split_ifs <;> simp

/-- The text of a finite double reads as the double that its digits give. -/
theorem number_magnitude (s : Bool) (m : Nat) (e : Int) (hrest : Delimited rest) :
    number s (magnitude m e ++ rest) = .ok (.float (Binary64.reread (.finite s m e)), rest) := by
  have hzero : number s (['0', '.', '0'] ++ rest) = .ok (.float (.zero s), rest) :=
    number_fraction s whole_zero (allDigits_zeros 1) nofun hrest
  simp only [magnitude, Binary64.reread]
  split_ifs with hm
  · exact hzero
  · have hcases := Decimal.shortest_cases (.finite false m e) (Binary64.scale m 1 (-e)).1
      (Binary64.scale m 1 (-e)).2
    generalize Decimal.shortest _ _ _ = d at *
    rcases Nat.eq_zero_or_pos d.digits with hd | hd
    · -- No digits stand for a double that is not zero.
      have hnone : d = ⟨0, 0⟩ := by
        refine hcases.resolve_left fun hreads => ?_
        rw [Decimal.toBinary64, hd] at hreads
        cases hreads
        exact hm rfl
      rw [hnone]
      exact hzero
    · obtain ⟨c, k, hc, hdigits, hsignificant⟩ := DecimalStyle.significant_spec hd
      have hshift := Binary64.ofDecimal_shift s c k (d.exponent + k)
      rw [add_sub_cancel_right] at hshift
      rw [hsignificant, number_layOut s hc _ hrest, hdigits, Binary64.digitCount_mul_pow hc, hshift]
      congr 4
      push_cast
      ring

end ApiModels.Json
