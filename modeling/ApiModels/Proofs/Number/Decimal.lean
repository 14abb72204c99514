/-
ApiModels.Proofs.Number.Decimal — decimal numbers and the doubles nearest to
them.

A decimal number may be written with more or fewer zeros at its end, and reads
as the same double (`ofDecimal_shift`). The digits of a number without its
trailing zeros are those of a number again (`significant_spec`).

Seventeen digits are enough for every double (`onGrid?_seventeen`): on the grid
of so many digits the decimal nearest to it lies closer than half the distance
to the next double. So the digits that are written for a double read back to it
(`shortest_reads`, `reread_of_proper`).
-/
import ApiModels.Number.Shortest
import ApiModels.Proofs.Number.Rounding

namespace ApiModels

/-! ## Digits -/

namespace Binary64

theorem digitCount_pos (n : Nat) : 0 < digitCount n := Nat.length_toDigits_pos

theorem digitCount_le_iff {n k : Nat} (hk : 0 < k) : digitCount n ≤ k ↔ n < 10 ^ k :=
  Nat.length_toDigits_le_iff (by decide) hk

theorem lt_pow_digitCount (n : Nat) : n < 10 ^ digitCount n :=
  (digitCount_le_iff (digitCount_pos n)).1 le_rfl

theorem pow_digitCount_le {n : Nat} (hn : 0 < n) : 10 ^ (digitCount n - 1) ≤ n := by
  by_contra hlt
  have hpos := digitCount_pos n
  rcases Nat.eq_zero_or_pos (digitCount n - 1) with hone | hmore
  · rw [hone] at hlt
    omega
  · have := (digitCount_le_iff hmore).2 (not_le.1 hlt)
    omega

theorem toDigits_mul_ten {n : Nat} (hn : 0 < n) :
    Nat.toDigits 10 (n * 10) = Nat.toDigits 10 n ++ ['0'] := by
  have h := Nat.toDigits_append_toDigits (b := 10) (d := 0) (by decide) hn (by decide)
  rw [Nat.add_zero, Nat.mul_comm] at h
  rw [← h, Nat.toDigits_zero]

theorem toDigits_mul_pow {n : Nat} (hn : 0 < n) (k : Nat) :
    Nat.toDigits 10 (n * 10 ^ k) = Nat.toDigits 10 n ++ List.replicate k '0' := by
  induction k with
  | zero => simp
  | succ k ih =>
    rw [Nat.pow_succ, ← Nat.mul_assoc, toDigits_mul_ten (Nat.mul_pos hn (by positivity)), ih,
      List.append_assoc, ← List.replicate_succ']

theorem digitCount_mul_pow {n : Nat} (hn : 0 < n) (k : Nat) :
    digitCount (n * 10 ^ k) = digitCount n + k := by
  rw [digitCount, toDigits_mul_pow hn, List.length_append, List.length_replicate, digitCount]

/-! ## Reading a decimal number -/

theorem ofDecimal_of_great (negative : Bool) {digits : Nat} {exponent : Int} (hdigits : 0 < digits)
    (hgreat : 310 < (digitCount digits : Int) + exponent) :
    ofDecimal negative digits exponent = .infinite negative := by
  unfold ofDecimal
  rw [if_neg (by omega), if_pos hgreat]

theorem ofDecimal_of_small (negative : Bool) {digits : Nat} {exponent : Int} (hdigits : 0 < digits)
    (hsmall : (digitCount digits : Int) + exponent < -330) :
    ofDecimal negative digits exponent = zero negative := by
  unfold ofDecimal
  rw [if_neg (by omega), if_neg (by omega), if_pos hsmall]

theorem ofDecimal_eq_ofRatio (negative : Bool) (digits : Nat) (exponent : Int)
    (hdigits : 0 < digits) (hgreat : (digitCount digits : Int) + exponent ≤ 310)
    (hsmall : -330 ≤ (digitCount digits : Int) + exponent) :
    ofDecimal negative digits exponent =
      ofRatio negative (digits * 10 ^ exponent.toNat) (10 ^ (-exponent).toNat) := by
  unfold ofDecimal
  rw [if_neg (by omega), if_neg (by omega), if_neg (by omega)]
  cases exponent <;> simp

/-- A decimal number reads as the same double with zeros at its end. -/
theorem ofDecimal_shift (negative : Bool) (digits k : Nat) (exponent : Int) :
    ofDecimal negative (digits * 10 ^ k) (exponent - k) = ofDecimal negative digits exponent := by
  rcases Nat.eq_zero_or_pos digits with rfl | hdigits
  · rw [Nat.zero_mul]
    rfl
  · have hmul : 0 < digits * 10 ^ k := Nat.mul_pos hdigits (by positivity)
    have hcount := digitCount_mul_pow hdigits k
    rcases lt_or_ge 310 ((digitCount digits : Int) + exponent) with hgreat | hgreat
    · rw [ofDecimal_of_great negative hmul (by omega), ofDecimal_of_great negative hdigits hgreat]
    rcases lt_or_ge ((digitCount digits : Int) + exponent) (-330) with hsmall | hsmall
    · rw [ofDecimal_of_small negative hmul (by omega), ofDecimal_of_small negative hdigits hsmall]
    rw [ofDecimal_eq_ofRatio negative _ _ hmul (by omega) (by omega),
      ofDecimal_eq_ofRatio negative _ _ hdigits hgreat hsmall]
    refine ofRatio_congr negative (by positivity) (by positivity) ?_
    rw [Nat.mul_assoc, Nat.mul_assoc, Nat.mul_assoc, ← Nat.pow_add, ← Nat.pow_add, ← Nat.pow_add]
    congr 2
    omega

/-- Every decimal number reads as a double in its one form. -/
theorem ofDecimal_proper (negative : Bool) (digits : Nat) (exponent : Int) :
    (ofDecimal negative digits exponent).Proper := by
  unfold ofDecimal
  split_ifs
  · exact proper_zero negative
  · trivial
  · exact proper_zero negative
  · cases exponent with
    | ofNat k => exact ofRatio_proper negative _ one_pos
    | negSucc k => exact ofRatio_proper negative _ (Nat.pow_pos (by decide))

/-- A double and its negative are read from the same digits. -/
theorem ofDecimal_neg (digits : Nat) (exponent : Int) :
    ofDecimal true digits exponent = (ofDecimal false digits exponent).neg := by
  have hratio : ∀ num den, ofRatio true num den = (ofRatio false num den).neg := by
    intro num den
    unfold ofRatio
    split_ifs
    · rfl
    · simp only
      split_ifs <;> rfl
  unfold ofDecimal
  split_ifs
  · rfl
  · rfl
  · rfl
  · cases exponent <;> exact hratio _ _

end Binary64

namespace Decimal

open Binary64

/-! ## The grids of decimals -/

/-- The decimal logarithm of a ratio is the exponent of its first digit. -/
theorem decimalLog_spec {num den : Nat} (hnum : 0 < num) (hden : 0 < den) :
    HasLog 10 (num / den) (decimalLog num den) := by
  have hnum' : (0 : ℚ) < num := by exact_mod_cast hnum
  have hden' : (0 : ℚ) < den := by exact_mod_cast hden
  unfold decimalLog
  split_ifs with hge
  · have hlow : 10 ^ (digitCount (num / den) - 1) * den ≤ num :=
      (Nat.le_div_iff_mul_le hden).1 (pow_digitCount_le (Nat.div_pos hge hden))
    have hhigh : num < 10 ^ digitCount (num / den) * den :=
      (Nat.div_lt_iff_lt_mul hden).1 (lt_pow_digitCount _)
    have hpos := digitCount_pos (num / den)
    refine ⟨?_, ?_⟩
    · rw [le_div_iff₀ hden', show ((digitCount (num / den) : Int) - 1) =
        ((digitCount (num / den) - 1 : Nat) : Int) by omega, zpow_natCast]
      exact_mod_cast hlow
    · rw [div_lt_iff₀ hden', sub_add_cancel, zpow_natCast]
      exact_mod_cast hhigh
  · have hlow : 10 ^ (digitCount (den / num) - 1) * num ≤ den :=
      (Nat.le_div_iff_mul_le hnum).1 (pow_digitCount_le (Nat.div_pos (by omega) hnum))
    have hhigh : den < 10 ^ digitCount (den / num) * num :=
      (Nat.div_lt_iff_lt_mul hnum).1 (lt_pow_digitCount _)
    have hpos := digitCount_pos (den / num)
    simp only [Nat.pow_eq]
    generalize digitCount (den / num) = d at *
    obtain ⟨d, rfl⟩ : ∃ c, d = c + 1 := ⟨d - 1, by omega⟩
    simp only [Nat.add_sub_cancel] at *
    have hcast : (((d + 1 : Nat) : Int) - 1) = (d : Int) := by push_cast; ring
    split_ifs with hexact
    · have hvalue : (num / den : ℚ) = 10 ^ (-(d : Int)) := by
        rw [zpow_neg, zpow_natCast, ← hexact]
        push_cast
        field_simp
      rw [hcast, hvalue]
      exact ⟨le_rfl, zpow_lt_zpow_right₀ (by norm_num) (by omega)⟩
    · have hlow' : num * 10 ^ d < den := lt_of_le_of_ne (by rwa [Nat.mul_comm]) hexact
      refine ⟨?_, ?_⟩
      · rw [zpow_neg, zpow_natCast, le_div_iff₀ hden', inv_mul_le_iff₀ (by positivity)]
        exact_mod_cast hhigh.le
      · rw [show -((d + 1 : Nat) : Int) + 1 = -(d : Int) by push_cast; ring, zpow_neg,
          zpow_natCast, div_lt_iff₀ hden', lt_inv_mul_iff₀ (by positivity), mul_comm]
        exact_mod_cast hlow'

/-- The neighbour of a quotient that is chosen is at most one half away from it. -/
theorem nearer_near {a b : Nat} (hb : 0 < b) (up : Bool)
    (hup : up = (decide (b < 2 * (a % b)) || (b == 2 * (a % b) && a / b % 2 == 1))) :
    |(a / b : ℚ) - ((if up then a / b + 1 else a / b : Nat) : ℚ)| ≤ 1 / 2 := by
  have hb' : (0 : ℚ) < b := by exact_mod_cast hb
  have hsplit : (a / b : ℚ) = (a / b : Nat) + (a % b : Nat) / b := by
    rw [div_eq_iff hb'.ne', add_mul, div_mul_cancel₀ _ hb'.ne']
    exact_mod_cast (Nat.div_add_mod' a b).symm
  have hmod : ((a % b : Nat) : ℚ) / b < 1 := by
    rw [div_lt_one hb']
    exact_mod_cast Nat.mod_lt a hb
  have hmod' : (0 : ℚ) ≤ ((a % b : Nat) : ℚ) / b := by positivity
  rw [hsplit, abs_le]
  cases up with
  | true =>
    have hhalf : b ≤ 2 * (a % b) := by
      have := hup.symm
      simp only [Bool.or_eq_true, decide_eq_true_eq, Bool.and_eq_true, beq_iff_eq] at this
      omega
    have hhalf' : (1 / 2 : ℚ) ≤ ((a % b : Nat) : ℚ) / b := by
      rw [le_div_iff₀ hb']
      have : (b : ℚ) ≤ 2 * (a % b : Nat) := by exact_mod_cast hhalf
      linarith
    simp only [if_true]
    push_cast at *
    constructor <;> linarith
  | false =>
    have hhalf : 2 * (a % b) ≤ b := by
      have := hup.symm
      simp only [Bool.or_eq_false_iff, decide_eq_false_iff_not] at this
      omega
    have hhalf' : ((a % b : Nat) : ℚ) / b ≤ 1 / 2 := by
      rw [div_le_iff₀ hb']
      have : (2 * (a % b : Nat) : ℚ) ≤ b := by exact_mod_cast hhalf
      linarith
    simp only [Bool.false_eq_true, if_false]
    constructor <;> linarith

/-- The neighbour of `a / b` on a grid that reads as a double, the nearer one first. -/
def chosen? (x : Binary64) (step : Int) (a b : Nat) : Option Decimal :=
  let low : Decimal := ⟨a / b, step⟩
  let high : Decimal := ⟨a / b + 1, step⟩
  let up := b < 2 * (a % b) || (b == 2 * (a % b) && a / b % 2 == 1)
  let nearer := if up then high else low
  let other := if up then low else high
  if nearer.toBinary64 = x then some nearer
  else if other.toBinary64 = x then some other
  else none

/-- Numerator and denominator of `num / den / 10 ^ step`. -/
def onStep (num den : Nat) (step : Int) : Nat × Nat :=
  match step with
  | .ofNat k => (num, den * Nat.pow 10 k)
  | .negSucc k => (num * Nat.pow 10 (k + 1), den)

theorem onGrid?_eq (x : Binary64) (num den : Nat) (log : Int) (count : Nat) :
    onGrid? x num den log count =
      chosen? x (log + 1 - count) (onStep num den (log + 1 - count)).1
        (onStep num den (log + 1 - count)).2 := rfl

theorem onStep_eq_scaleBy (num den : Nat) (step : Int) :
    onStep num den step = scaleBy 10 num den step := by
  cases step <;> rfl

theorem onStep_den_pos (num : Nat) {den : Nat} (hden : 0 < den) (step : Int) :
    0 < (onStep num den step).2 :=
  onStep_eq_scaleBy num den step ▸ scaleBy_den_pos (by decide) num hden step

theorem onStep_ratio (num : Nat) {den : Nat} (hden : 0 < den) (step : Int) :
    ((onStep num den step).1 / (onStep num den step).2 : ℚ) = num / den / 10 ^ step := by
  rw [onStep_eq_scaleBy]
  exact_mod_cast scaleBy_ratio (show 0 < 10 by decide) num hden step

theorem chosen?_reads {x : Binary64} {step : Int} {a b : Nat} {d : Decimal}
    (h : chosen? x step a b = some d) : d.toBinary64 = x := by
  unfold chosen? at h
  simp only at h
  generalize (decide (b < 2 * (a % b)) || _) = up at h
  split_ifs at h
  all_goals
    cases h
    assumption

theorem isSome_chosen? {x : Binary64} {step : Int} {a b : Nat} (hb : 0 < b)
    (h : ∀ N : Nat, |(a / b : ℚ) - N| ≤ 1 / 2 → (⟨N, step⟩ : Decimal).toBinary64 = x) :
    (chosen? x step a b).isSome = true := by
  have hnear := fun up hup => h _ (nearer_near (a := a) hb up hup)
  unfold chosen?
  simp only
  generalize hup : (decide (b < 2 * (a % b)) || _) = up
  have hreads := hnear up hup.symm
  rw [if_pos]
  · rfl
  · cases up <;> exact hreads

/-! ## Seventeen digits -/

theorem ten_zpow_pos (e : Int) : (0 : ℚ) < 10 ^ e := zpow_pos (by norm_num) e

/-- Powers are compared as natural numbers. -/
theorem two_pow_lt_ten_pow {a b c : Nat} (h : 2 ^ a * 2 ^ b < 10 ^ c) :
    (2 : ℚ) ^ a * 2 ^ b < 10 ^ c := by exact_mod_cast h

theorem greatest_below : (2 : ℚ) ^ precision * 2 ^ greatestExponent < 10 ^ (308 + 1 : Int) := by
  rw [show greatestExponent = (971 : Nat) from rfl, show (308 + 1 : Int) = (309 : Nat) from rfl,
    zpow_natCast, zpow_natCast]
  exact two_pow_lt_ten_pow (by decide +kernel)

theorem least_above : (10 : ℚ) ^ (-324 : Int) ≤ 2 ^ leastExponent := by
  rw [show leastExponent = -(1074 : Nat) from rfl, show (-324 : Int) = -(324 : Nat) from rfl,
    zpow_neg, zpow_neg, zpow_natCast, zpow_natCast, inv_le_inv₀ (by positivity) (by positivity)]
  exact ((one_mul _).symm.trans_lt (two_pow_lt_ten_pow (a := 0) (by decide +kernel))).le

/-- The exponents of the first digits of doubles. -/
theorem log_bounds {m : Nat} {e log : Int} (hfits : Fits m e) (hm : 0 < m)
    (hlog : HasLog 10 (m * 2 ^ e) log) : -324 ≤ log ∧ log ≤ 308 := by
  have hm' : (1 : ℚ) ≤ m := by exact_mod_cast hm
  have hbits : (m : ℚ) < 2 ^ precision := by exact_mod_cast hfits.bits
  constructor
  · refine hlog.ge (by norm_num) (least_above.trans ?_)
    calc (2 : ℚ) ^ leastExponent ≤ 2 ^ e := zpow_le_zpow_right₀ (by norm_num) hfits.least
      _ ≤ m * 2 ^ e := le_mul_of_one_le_left (two_zpow_pos e).le hm'
  · refine hlog.le (by norm_num) (lt_trans ?_ greatest_below)
    exact mul_lt_mul hbits (zpow_le_zpow_right₀ (by norm_num) hfits.greatest) (two_zpow_pos _)
      (by positivity)

/-- On the grid of seventeen digits the steps are small beside the distances of doubles. -/
theorem step_le {m : Nat} {e log : Int} (hlog : HasLog 10 (m * 2 ^ e) log) :
    (10 : ℚ) ^ (log + 1 - (17 : Nat)) * 10 ^ 16 ≤ m * 2 ^ e := by
  refine le_trans (le_of_eq ?_) hlog.low
  rw [← zpow_natCast, ← zpow_add₀ (by norm_num)]
  congr 1
  push_cast
  ring

theorem ten_pow_ratio (e : Int) :
    ((10 ^ e.toNat : Nat) : ℚ) / (10 ^ (-e).toNat : Nat) = 10 ^ e := by
  cases e with
  | ofNat k => simp
  | negSucc k => simp [zpow_negSucc]

/-- A whole number that is nearest to a place with seventeen digits has about as many. -/
theorem digitCount_near {place : ℚ} {N : Nat} (hlow : 10 ^ 16 ≤ place) (hhigh : place < 10 ^ 17)
    (hnear : |place - N| ≤ 1 / 2) : 0 < N ∧ 16 < digitCount N ∧ digitCount N ≤ 18 := by
  obtain ⟨hbelow, habove⟩ := abs_le.1 hnear
  have hcast : ((10 ^ 16 : Nat) : ℚ) < N + 1 := by
    push_cast
    linarith
  have hle : 10 ^ 16 ≤ N := Nat.lt_add_one_iff.1 (by exact_mod_cast hcast)
  refine ⟨by omega, ?_, ?_⟩
  · by_contra hcount
    exact hle.not_gt ((digitCount_le_iff (by decide)).1 (not_lt.1 hcount))
  · have hlt : (N : ℚ) < 10 ^ 18 := by linarith
    exact (digitCount_le_iff (by decide)).2 (by exact_mod_cast hlt)

/-- What is at most half a step away on a grid is at most half a unit away. -/
theorem near_scaled {place unit m N : ℚ} (hunit : 0 < unit) (hplace : place * unit = m)
    (hnear : |place - N| ≤ 1 / 2) : |N * unit - m| ≤ unit / 2 := by
  rw [← hplace, ← sub_mul, abs_mul, abs_of_pos hunit, abs_sub_comm]
  nlinarith

/-- A decimal of seventeen digits that is nearest to a double reads as it. -/
theorem near_reads {m N : Nat} {e log : Int} (hfits : Fits m e) (hm : 0 < m)
    (hlog : HasLog 10 (m * 2 ^ e) log)
    (hnear : |(m * 2 ^ e : ℚ) / 10 ^ (log + 1 - (17 : Nat)) - N| ≤ 1 / 2) :
    (⟨N, log + 1 - (17 : Nat)⟩ : Decimal).toBinary64 = .finite false m e := by
  have hdouble := two_zpow_pos e
  have hstep := ten_zpow_pos (log + 1 - (17 : Nat))
  have hsmall := step_le hlog
  have hgridLow : (10 : ℚ) ^ 16 ≤ m * 2 ^ e / 10 ^ (log + 1 - (17 : Nat)) := by
    rwa [le_div_iff₀ hstep, mul_comm]
  have hgridHigh : (m * 2 ^ e : ℚ) / 10 ^ (log + 1 - (17 : Nat)) < 10 ^ 17 := by
    rw [div_lt_iff₀ hstep, ← zpow_natCast, ← zpow_add₀ (by norm_num)]
    refine hlog.high.trans_le (le_of_eq ?_)
    congr 1
    push_cast
    ring
  obtain ⟨hpos, hcountLow, hcountHigh⟩ := digitCount_near hgridLow hgridHigh hnear
  obtain ⟨hlogLow, hlogHigh⟩ := log_bounds hfits hm hlog
  have hreads : toBinary64 ⟨N, log + 1 - (17 : Nat)⟩ = _ :=
    ofDecimal_eq_ofRatio false N (log + 1 - (17 : Nat)) hpos (by omega) (by omega)
  rw [hreads]
  -- From here on a step of the grid is a unit, and the double is `m`.
  have hunit : (0 : ℚ) < 10 ^ (log + 1 - (17 : Nat)) / 2 ^ e := div_pos hstep hdouble
  have hscaled := near_scaled hunit (m := m) (by field_simp) hnear
  have hvalue : ((N * 10 ^ (log + 1 - (17 : Nat)).toNat : Nat) : ℚ) /
      (10 ^ (-(log + 1 - (17 : Nat))).toNat : Nat) / 2 ^ e =
      N * (10 ^ (log + 1 - (17 : Nat)) / 2 ^ e) := by
    rw [Nat.cast_mul, mul_div_assoc, ten_pow_ratio, mul_div_assoc]
  have hunitSmall : (10 : ℚ) ^ (log + 1 - (17 : Nat)) / 2 ^ e * 10 ^ 16 ≤ m := by
    rwa [div_mul_eq_mul_div, div_le_iff₀ hdouble]
  have hbits : (m : ℚ) ≤ 2 ^ 53 - 1 := by
    rw [le_sub_iff_add_le]
    exact_mod_cast hfits.bits
  generalize (10 : ℚ) ^ (log + 1 - (17 : Nat)) / 2 ^ e = unit at *
  obtain ⟨hlow, hhigh⟩ := abs_le.1 hscaled
  refine ofRatio_eq_of_near false (by positivity) hfits hm ?_ ?_
  · rw [hvalue, abs_lt]
    constructor <;> linarith
  · intro hpower _
    have hpower' : (m : ℚ) = 2 ^ 52 := by exact_mod_cast hpower
    rw [hvalue]
    linarith

/-- What is written for a double reads as it, unless no grid has such a decimal. -/
theorem shortest_cases (x : Binary64) (num den : Nat) :
    (shortest x num den).toBinary64 = x ∨ shortest x num den = ⟨0, 0⟩ := by
  unfold shortest
  simp only
  split
  · rename_i d hfound
    obtain ⟨count, -, hd⟩ := List.exists_of_findSome?_eq_some hfound
    exact .inl (chosen?_reads (onGrid?_eq _ _ _ _ _ ▸ hd))
  · exact .inr rfl

/-- The digits that are written for a positive double read as that double. -/
theorem shortest_reads {m : Nat} {e : Int} (hfits : Fits m e) (hm : 0 < m) :
    (shortest (.finite false m e) (scale m 1 (-e)).1 (scale m 1 (-e)).2).toBinary64 =
      .finite false m e := by
  have hden := scale_den_pos m one_pos (-e)
  have hvalue : ((scale m 1 (-e)).1 / (scale m 1 (-e)).2 : ℚ) = m * 2 ^ e := by
    rw [scale_ratio m one_pos, zpow_neg, div_inv_eq_mul, Nat.cast_one, div_one]
  have hpos : (0 : ℚ) < m * 2 ^ e := mul_pos (by exact_mod_cast hm) (two_zpow_pos e)
  have hnum : 0 < (scale m 1 (-e)).1 := by
    by_contra hzero
    rw [Nat.eq_zero_of_not_pos hzero, Nat.cast_zero, zero_div] at hvalue
    exact hpos.ne hvalue
  have hlog := hvalue ▸ decimalLog_spec hnum hden
  have hlast := isSome_chosen? (x := .finite false m e)
    (onStep_den_pos (scale m 1 (-e)).1 hden _) fun N hnear =>
      near_reads hfits hm hlog (by rwa [onStep_ratio _ hden, hvalue] at hnear)
  rw [← onGrid?_eq] at hlast
  refine (shortest_cases _ _ _).resolve_right fun hnone => ?_
  unfold shortest at hnone
  simp only at hnone
  split at hnone
  · rename_i d hfound
    obtain ⟨count, -, hd⟩ := List.exists_of_findSome?_eq_some hfound
    rw [hnone] at hd
    have hzero := chosen?_reads (onGrid?_eq _ _ _ _ _ ▸ hd)
    cases hzero
    exact absurd hm (by decide)
  · rename_i hfound
    rw [List.findSome?_eq_none_iff.1 hfound 17 (by decide)] at hlast
    cases hlast

end Decimal

/-! ## Significant digits -/

namespace DecimalStyle

open Binary64

theorem significant_mul_ten {n : Nat} (hn : 0 < n) : significant (n * 10) = significant n := by
  unfold significant
  rw [toDigits_mul_ten hn, List.reverse_append]
  rfl

theorem significant_of_last {n : Nat} (hn : n % 10 ≠ 0) : significant n = Nat.toDigits 10 n := by
  have hlast : ∃ ds, Nat.toDigits 10 n = ds ++ [Nat.digitChar (n % 10)] := by
    rw [Nat.toDigits_eq_if (by decide)]
    split
    · rename_i hlt
      exact ⟨[], by rw [Nat.mod_eq_of_lt hlt]; rfl⟩
    · exact ⟨_, rfl⟩
  obtain ⟨ds, hds⟩ := hlast
  have hnonzero : (Nat.digitChar (n % 10) == '0') = false := by
    simpa using hn
  unfold significant
  rw [hds, List.reverse_append, List.reverse_singleton, List.singleton_append,
    List.dropWhile_cons_of_neg (by simp [hnonzero]), List.reverse_cons, List.reverse_reverse]

/-- The digits of a number without its trailing zeros are those of what is left of it. -/
theorem significant_spec {n : Nat} (hn : 0 < n) :
    ∃ c k, 0 < c ∧ n = c * 10 ^ k ∧ significant n = Nat.toDigits 10 c := by
  induction n using Nat.strong_induction_on with
  | _ n ih =>
    by_cases hlast : n % 10 = 0
    · obtain ⟨c, rfl⟩ : ∃ c, n = c * 10 := ⟨n / 10, by omega⟩
      obtain ⟨d, k, hd, hc, hsignificant⟩ := ih c (by omega) (by omega)
      exact ⟨d, k + 1, hd, by rw [hc, Nat.pow_succ, Nat.mul_assoc],
        by rw [significant_mul_ten (by omega), hsignificant]⟩
    · exact ⟨n, 0, hn, by simp, significant_of_last hlast⟩

end DecimalStyle

namespace Binary64

/-- The double that the digits written for a double read as. -/
def reread : Binary64 → Binary64
  | .finite s m e =>
    if m = 0 then zero s
    else
      let d := Decimal.shortest (.finite false m e) (scale m 1 (-e)).1 (scale m 1 (-e)).2
      ofDecimal s d.digits d.exponent
  | x => x

/-- A double in its one form reads as itself. -/
theorem reread_of_proper {x : Binary64} (h : x.Proper) : x.reread = x := by
  cases x with
  | infinite s => rfl
  | nan => rfl
  | finite s m e =>
    simp only [reread]
    split_ifs with hm
    · obtain rfl := hm
      rw [zero, h.short (by decide)]
    · have hreads := Decimal.shortest_reads h (Nat.pos_of_ne_zero hm)
      unfold Decimal.toBinary64 at hreads
      cases s with
      | false => exact hreads
      | true =>
        rw [ofDecimal_neg, hreads]
        rfl

end Binary64

end ApiModels
