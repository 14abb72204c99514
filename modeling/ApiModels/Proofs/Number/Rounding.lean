/-
ApiModels.Proofs.Number.Rounding — the double nearest to a ratio.

`Binary64.Fits` is the one form of a finite double, and every double that a
ratio is rounded to has it (`ofRatio_proper`). Rounding depends on the value of
the ratio alone (`ofRatio_congr`). The exponent at which a ratio is rounded is
the one that `HasUnit` holds of (`unitExponent_spec`, `HasUnit.unique`).

`ofRatio_eq_of_near` says which ratios are rounded to a double: those that are
nearer to it than half the distance of the doubles there. Below a power of two
the doubles lie twice as close, so a quarter counts on that side.
-/
import ApiModels.Number.Binary64
import Mathlib.Algebra.Order.Field.Basic
import Mathlib.Data.Rat.Cast.Order
import Mathlib.Tactic.FieldSimp
import Mathlib.Tactic.Linarith
import Mathlib.Tactic.Positivity
import Mathlib.Tactic.NormNum
import Mathlib.Tactic.Ring

namespace ApiModels

/-! ## Logarithms -/

/-- A rational lies between a power of a base and the next one. -/
structure HasLog (base q : ℚ) (e : Int) : Prop where
  low : base ^ e ≤ q
  high : q < base ^ (e + 1)

namespace HasLog

variable {base q : ℚ} {d e : Int}

theorem le (h : HasLog base q d) (hbase : 1 < base) (hq : q < base ^ (e + 1)) : d ≤ e :=
  Int.lt_add_one_iff.1 ((zpow_lt_zpow_iff_right₀ hbase).1 (h.low.trans_lt hq))

theorem ge (h : HasLog base q d) (hbase : 1 < base) (hq : base ^ e ≤ q) : e ≤ d :=
  Int.lt_add_one_iff.1 ((zpow_lt_zpow_iff_right₀ hbase).1 (hq.trans_lt h.high))

theorem unique (h : HasLog base q d) (hbase : 1 < base) (h' : HasLog base q e) : d = e :=
  le_antisymm (h.le hbase h'.high) (h.ge hbase h'.low)

end HasLog

namespace Binary64

/-! ## The form of a double -/

/-- Mantissa and exponent are in the one form that a finite double has. -/
structure Fits (m : Nat) (e : Int) : Prop where
  bits : m < 2 ^ precision
  least : leastExponent ≤ e
  greatest : e ≤ greatestExponent
  short : m < 2 ^ (precision - 1) → e = leastExponent

/-- A double is kept in its one form. -/
def Proper : Binary64 → Prop
  | .finite _ m e => Fits m e
  | _ => True

theorem proper_zero (negative : Bool) : (zero negative).Proper :=
  ⟨by decide, le_rfl, by decide, fun _ => rfl⟩

/-! ## Rounding a quotient -/

variable {a b N : Nat}

theorem roundHalfEven_mul (a b : Nat) {c : Nat} (hc : 0 < c) :
    roundHalfEven (a * c) (b * c) = roundHalfEven a b := by
  unfold roundHalfEven
  have hdiv : a * c / (b * c) = a / b := Nat.mul_div_mul_right a b hc
  have hmod : a * c % (b * c) = a % b * c := Nat.mul_mod_mul_right c a b
  have hlt : 2 * (a % b * c) < b * c ↔ 2 * (a % b) < b := by
    rw [← mul_assoc]
    exact Nat.mul_lt_mul_right hc
  have hgt : b * c < 2 * (a % b * c) ↔ b < 2 * (a % b) := by
    rw [← mul_assoc]
    exact Nat.mul_lt_mul_right hc
  simp only [hdiv, hmod, hlt, hgt]

/-- Rounding depends on the value of the quotient alone. -/
theorem roundHalfEven_congr {c d : Nat} (hb : 0 < b) (hd : 0 < d) (h : a * d = c * b) :
    roundHalfEven a b = roundHalfEven c d := by
  rw [← roundHalfEven_mul a b hd, ← roundHalfEven_mul c d hb, h, Nat.mul_comm b d]

theorem roundHalfEven_le (hb : 0 < b) (h : a ≤ N * b) : roundHalfEven a b ≤ N := by
  have hsplit := Nat.div_add_mod a b
  have hq : a / b ≤ N := Nat.div_le_of_le_mul (by rwa [Nat.mul_comm])
  unfold roundHalfEven
  rcases Nat.lt_or_eq_of_le hq with hq | hq
  · simp only
    split_ifs <;> omega
  · have hr : a % b = 0 := by
      rw [hq, Nat.mul_comm] at hsplit
      omega
    simp only [hr, hq]
    split_ifs <;> omega

theorem le_roundHalfEven (hb : 0 < b) (h : N * b ≤ a) : N ≤ roundHalfEven a b := by
  have hq : N ≤ a / b := (Nat.le_div_iff_mul_le hb).2 h
  unfold roundHalfEven
  simp only
  split_ifs <;> omega

/-- A quotient is rounded to the whole number that it is nearer to than one half. -/
theorem roundHalfEven_eq (hb : 0 < b) (hlow : 2 * N * b < 2 * a + b)
    (hhigh : 2 * a < 2 * N * b + b) : roundHalfEven a b = N := by
  have hsplit := Nat.div_add_mod a b
  have hmod := Nat.mod_lt a hb
  unfold roundHalfEven
  simp only
  generalize a / b = q at *
  generalize a % b = r at *
  subst hsplit
  have hle : q ≤ N := by
    by_contra hlt
    have : (N + 1) * b ≤ q * b := Nat.mul_le_mul_right b (by omega)
    nlinarith
  have hge : N ≤ q + 1 := by
    by_contra hlt
    have : (q + 2) * b ≤ N * b := Nat.mul_le_mul_right b (by omega)
    nlinarith
  rcases Nat.eq_or_lt_of_le hle with rfl | hlt
  · have hr : 2 * r < b := by nlinarith
    simp [hr]
  · obtain rfl : N = q + 1 := by omega
    have hr : b < 2 * r := by nlinarith
    rw [if_neg (by omega), if_pos hr]

/-! ## Scaling by a power -/

/-- Numerator and denominator of `num / den / base ^ e`. -/
def scaleBy (base num den : Nat) (e : Int) : Nat × Nat :=
  match e with
  | .ofNat k => (num, den * Nat.pow base k)
  | .negSucc k => (num * Nat.pow base (k + 1), den)

section

variable {base den : Nat}

theorem scaleBy_den_pos (hbase : 0 < base) (num : Nat) (hden : 0 < den) (e : Int) :
    0 < (scaleBy base num den e).2 := by
  cases e with
  | ofNat k => exact Nat.mul_pos hden (Nat.pow_pos hbase)
  | negSucc k => exact hden

theorem scaleBy_ratio (hbase : 0 < base) (num : Nat) (hden : 0 < den) (e : Int) :
    ((scaleBy base num den e).1 / (scaleBy base num den e).2 : ℚ) =
      num / den / (base : ℚ) ^ e := by
  have hbase' : (base : ℚ) ≠ 0 := by positivity
  have hden' : (den : ℚ) ≠ 0 := by positivity
  cases e with
  | ofNat k =>
    simp only [scaleBy, Nat.pow_eq, Nat.cast_mul, Nat.cast_pow, Int.ofNat_eq_natCast, zpow_natCast]
    field_simp
  | negSucc k =>
    simp only [scaleBy, Nat.pow_eq, Nat.cast_mul, Nat.cast_pow, zpow_negSucc]
    field_simp

end

theorem scale_eq_scaleBy (num den : Nat) (e : Int) : scale num den e = scaleBy 2 num den e := by
  cases e <;> rfl

theorem scale_den_pos (num : Nat) {den : Nat} (hden : 0 < den) (e : Int) :
    0 < (scale num den e).2 :=
  scale_eq_scaleBy num den e ▸ scaleBy_den_pos two_pos num hden e

theorem scale_ratio (num : Nat) {den : Nat} (hden : 0 < den) (e : Int) :
    ((scale num den e).1 : ℚ) / (scale num den e).2 = num / den / 2 ^ e := by
  rw [scale_eq_scaleBy]
  exact_mod_cast scaleBy_ratio two_pos num hden e

theorem two_zpow_pos (e : Int) : (0 : ℚ) < 2 ^ e := zpow_pos (by norm_num) e

theorem two_zpow_add (d e : Int) : (2 : ℚ) ^ (d + e) = 2 ^ d * 2 ^ e := zpow_add₀ (by norm_num) d e

/-- The logarithm of a ratio is the exponent of the greatest power of two that is at most it. -/
theorem binaryLog_spec {num den : Nat} (hnum : 0 < num) (hden : 0 < den) :
    HasLog 2 (num / den) (binaryLog num den) := by
  have hden' : (0 : ℚ) < den := by positivity
  have hnumLow : (2 : ℚ) ^ num.log2 ≤ num := by exact_mod_cast Nat.log2_self_le (by omega)
  have hnumHigh : (num : ℚ) < 2 ^ (num.log2 + 1) := by exact_mod_cast Nat.lt_log2_self
  have hdenLow : (2 : ℚ) ^ den.log2 ≤ den := by exact_mod_cast Nat.log2_self_le (by omega)
  have hdenHigh : (den : ℚ) < 2 ^ (den.log2 + 1) := by exact_mod_cast Nat.lt_log2_self
  set guess : Int := (num.log2 : Int) - (den.log2 : Int) with hguess
  have hhigh : (num / den : ℚ) < 2 ^ (guess + 1) := by
    rw [div_lt_iff₀ hden']
    calc (num : ℚ) < 2 ^ (num.log2 + 1) := hnumHigh
      _ = 2 ^ (guess + 1) * 2 ^ den.log2 := by
        rw [← zpow_natCast, ← zpow_natCast, ← two_zpow_add]
        congr 1
        push_cast
        omega
      _ ≤ 2 ^ (guess + 1) * den := mul_le_mul_of_nonneg_left hdenLow (two_zpow_pos _).le
  have hlow : (2 : ℚ) ^ (guess - 1) ≤ num / den := by
    rw [le_div_iff₀ hden']
    calc (2 : ℚ) ^ (guess - 1) * den ≤ 2 ^ (guess - 1) * 2 ^ (den.log2 + 1) :=
          mul_le_mul_of_nonneg_left hdenHigh.le (two_zpow_pos _).le
      _ = 2 ^ num.log2 := by
        rw [← zpow_natCast, ← zpow_natCast, ← two_zpow_add]
        congr 1
        push_cast
        omega
      _ ≤ num := hnumLow
  have hscale := scale_ratio num hden guess
  have hb : (0 : ℚ) < (scale num den guess).2 := by
    exact_mod_cast scale_den_pos num hden guess
  have hcompare : (scale num den guess).2 ≤ (scale num den guess).1 ↔
      (2 : ℚ) ^ guess ≤ num / den := by
    rw [← one_le_div₀ (two_zpow_pos guess), ← hscale, one_le_div₀ hb, Nat.cast_le]
  unfold binaryLog
  simp only [← hguess]
  split
  · rename_i hle
    exact ⟨hcompare.1 hle, hhigh⟩
  · rename_i hlt
    exact ⟨hlow, by simpa using lt_of_not_ge (mt hcompare.2 hlt)⟩

/-! ## The nearest double -/

/-- The exponent at which a ratio is rounded. -/
def unitExponent (num den : Nat) : Int :=
  max (binaryLog num den - (precision - 1)) leastExponent

/-- A ratio has as many bits at an exponent as a mantissa, or fewer at the least exponent. -/
structure HasUnit (q : ℚ) (e : Int) : Prop where
  least : leastExponent ≤ e
  high : q < 2 ^ precision * 2 ^ e
  low : leastExponent < e → 2 ^ (precision - 1) * 2 ^ e ≤ q

theorem HasUnit.le {q : ℚ} {d e : Int} (h : HasUnit q d) (hleast : leastExponent ≤ e)
    (hq : q < 2 ^ precision * 2 ^ e) : d ≤ e := by
  by_contra hlt
  rw [not_le] at hlt
  refine (h.low (hleast.trans_lt hlt)).not_gt ?_
  calc q < 2 ^ precision * 2 ^ e := hq
    _ = 2 ^ (precision - 1) * 2 ^ (e + 1) := by
      rw [zpow_add_one₀ (by norm_num)]
      norm_num [precision]
      ring
    _ ≤ 2 ^ (precision - 1) * 2 ^ d :=
      mul_le_mul_of_nonneg_left (zpow_le_zpow_right₀ (by norm_num) hlt) (by positivity)

theorem HasUnit.unique {q : ℚ} {d e : Int} (h : HasUnit q d) (h' : HasUnit q e) : d = e :=
  le_antisymm (h.le h'.least h'.high) (h'.le h.least h.high)

theorem unitExponent_spec {num den : Nat} (hnum : 0 < num) (hden : 0 < den) :
    HasUnit (num / den) (unitExponent num den) := by
  have hlog := binaryLog_spec hnum hden
  refine ⟨le_max_right _ _, ?_, fun h => ?_⟩
  · rw [← zpow_natCast, ← two_zpow_add]
    refine hlog.high.trans_le (zpow_le_zpow_right₀ (by norm_num) ?_)
    unfold unitExponent precision
    omega
  · rw [← zpow_natCast, ← two_zpow_add]
    refine le_trans (zpow_le_zpow_right₀ (by norm_num) ?_) hlog.low
    unfold unitExponent precision at h ⊢
    omega

/-- A mantissa after rounding, with its exponent; one that became too long is halved. -/
def settle (negative : Bool) (m : Nat) (e : Int) : Binary64 :=
  if m = 2 ^ precision then
    if greatestExponent < e + 1 then .infinite negative
    else .finite negative (2 ^ (precision - 1)) (e + 1)
  else if greatestExponent < e then .infinite negative
  else .finite negative m e

theorem ofRatio_eq_settle (negative : Bool) {num : Nat} (hnum : 0 < num) (den : Nat) :
    ofRatio negative num den = settle negative
      (roundHalfEven (scale num den (unitExponent num den)).1
        (scale num den (unitExponent num den)).2) (unitExponent num den) := by
  unfold ofRatio settle unitExponent
  rw [if_neg (by omega)]
  simp only [Nat.pow_eq]
  split_ifs <;> rfl

/-- The double nearest to a ratio depends on the value of the ratio alone. -/
theorem ofRatio_congr (negative : Bool) {num den num' den' : Nat} (hden : 0 < den)
    (hden' : 0 < den') (h : num * den' = num' * den) :
    ofRatio negative num den = ofRatio negative num' den' := by
  have hvalue : (num / den : ℚ) = num' / den' := by
    rw [div_eq_div_iff (by positivity) (by positivity)]
    exact_mod_cast h
  rcases Nat.eq_zero_or_pos num with rfl | hnum
  · obtain rfl : num' = 0 := by
      rw [Nat.zero_mul] at h
      exact (Nat.mul_eq_zero.1 h.symm).resolve_right (by omega)
    rfl
  · have hnum' : 0 < num' :=
      Nat.pos_of_mul_pos_right (h ▸ Nat.mul_pos hnum hden')
    have hlog : binaryLog num den = binaryLog num' den' :=
      (binaryLog_spec hnum hden).unique (by norm_num) (hvalue ▸ binaryLog_spec hnum' hden')
    have hunit : unitExponent num den = unitExponent num' den' := by
      rw [unitExponent, unitExponent, hlog]
    rw [ofRatio_eq_settle negative hnum, ofRatio_eq_settle negative hnum', hunit]
    congr 1
    refine roundHalfEven_congr (scale_den_pos num hden _) (scale_den_pos num' hden' _) ?_
    have hscaled := (scale_ratio num hden (unitExponent num' den')).trans
      ((congrArg (· / (2 : ℚ) ^ unitExponent num' den') hvalue).trans
        (scale_ratio num' hden' (unitExponent num' den')).symm)
    rw [div_eq_div_iff (by exact_mod_cast (scale_den_pos num hden _).ne')
      (by exact_mod_cast (scale_den_pos num' hden' _).ne')] at hscaled
    exact_mod_cast hscaled

/-- A mantissa that is in range for its exponent settles to a double in its one form. -/
theorem settle_proper (negative : Bool) {m : Nat} {e : Int} (hm : m ≤ 2 ^ precision)
    (he : leastExponent ≤ e) (hshort : m < 2 ^ (precision - 1) → e = leastExponent) :
    (settle negative m e).Proper := by
  unfold settle
  split_ifs with hlong hgreat hgreat
  · trivial
  · exact ⟨by decide, by omega, by omega, fun h => absurd h (by decide)⟩
  · trivial
  · exact ⟨by omega, he, by omega, hshort⟩

/-- The quotient whose rounding is the mantissa. -/
theorem scaled_mul (num : Nat) {den : Nat} (hden : 0 < den) (e : Int) :
    ((scale num den e).1 : ℚ) = num / den / 2 ^ e * (scale num den e).2 := by
  have hb : (0 : ℚ) < (scale num den e).2 := by exact_mod_cast scale_den_pos num hden e
  rw [← scale_ratio num hden e, div_mul_cancel₀ _ hb.ne']

/-- Every ratio is rounded to a double in its one form. -/
theorem ofRatio_proper (negative : Bool) (num : Nat) {den : Nat} (hden : 0 < den) :
    (ofRatio negative num den).Proper := by
  rcases Nat.eq_zero_or_pos num with rfl | hnum
  · exact proper_zero negative
  · rw [ofRatio_eq_settle negative hnum]
    have hspec := unitExponent_spec hnum hden
    have hb := scale_den_pos num hden (unitExponent num den)
    have hb' : (0 : ℚ) < (scale num den (unitExponent num den)).2 := by exact_mod_cast hb
    have hunit := two_zpow_pos (unitExponent num den)
    refine settle_proper negative (roundHalfEven_le hb ?_) hspec.least fun hshort => ?_
    · have hle := mul_le_mul_of_nonneg_right ((div_lt_iff₀ hunit).2 hspec.high).le hb'.le
      rw [← scaled_mul num hden] at hle
      exact_mod_cast hle
    · by_contra hne
      refine hshort.not_ge (le_roundHalfEven hb ?_)
      have hlow := hspec.low (lt_of_le_of_ne hspec.least (Ne.symm hne))
      have hle := mul_le_mul_of_nonneg_right ((le_div_iff₀ hunit).2 hlow) hb'.le
      rw [← scaled_mul num hden] at hle
      exact_mod_cast hle

/-- A ratio as a multiple of a power of two is rounded to a whole multiple that it is near to. -/
theorem roundHalfEven_scale {num den : Nat} (hden : 0 < den) {e : Int} {N : Nat}
    (hnear : |(num / den : ℚ) / 2 ^ e - N| < 1 / 2) :
    roundHalfEven (scale num den e).1 (scale num den e).2 = N := by
  have hb : (0 : ℚ) < (scale num den e).2 := by exact_mod_cast scale_den_pos num hden e
  obtain ⟨hlow, hhigh⟩ := abs_lt.1 hnear
  have hmul := scaled_mul num hden e
  refine roundHalfEven_eq (scale_den_pos num hden e) ?_ ?_
  · have hlow' : (2 * N * (scale num den e).2 : ℚ) <
        2 * (scale num den e).1 + (scale num den e).2 := by
      rw [hmul]
      nlinarith
    exact_mod_cast hlow'
  · have hhigh' : (2 * (scale num den e).1 : ℚ) <
        2 * N * (scale num den e).2 + (scale num den e).2 := by
      rw [hmul]
      nlinarith
    exact_mod_cast hhigh'

theorem num_pos_of_scaled {num den : Nat} {e : Int} (h : (0 : ℚ) < num / den / 2 ^ e) :
    0 < num := by
  rcases Nat.eq_zero_or_pos num with rfl | hnum
  · simp at h
  · exact hnum

/-- A mantissa is the one that a ratio is rounded to at the exponent that is taken for it. -/
theorem ofRatio_eq_settle_of_near (negative : Bool) {num den : Nat} {e : Int} {N : Nat}
    (hnum : 0 < num) (hden : 0 < den) (hunit : HasUnit (num / den) e)
    (hnear : |(num / den : ℚ) / 2 ^ e - N| < 1 / 2) :
    ofRatio negative num den = settle negative N e := by
  rw [ofRatio_eq_settle negative hnum, (unitExponent_spec hnum hden).unique hunit,
    roundHalfEven_scale hden hnear]

/-- Below a power of two a ratio is rounded at half the unit, and up to the power itself. -/
theorem ofRatio_eq_power (negative : Bool) {num den : Nat} {e : Int} (hden : 0 < den)
    (hleast : leastExponent < e) (hgreatest : e ≤ greatestExponent)
    (hlow : (2 ^ (precision - 1) : ℚ) - 1 / 4 < num / den / 2 ^ e)
    (hhigh : (num / den : ℚ) / 2 ^ e < 2 ^ (precision - 1)) :
    ofRatio negative num den = .finite negative (2 ^ (precision - 1)) e := by
  have hdouble : (num / den : ℚ) / 2 ^ (e - 1) = 2 * (num / den / 2 ^ e) := by
    rw [zpow_sub_one₀ (by norm_num)]
    field_simp
  have hpos : (0 : ℚ) < num / den / 2 ^ e := lt_trans (by norm_num [precision]) hlow
  norm_num [precision] at hlow hhigh
  have hunit : HasUnit (num / den) (e - 1) := by
    refine ⟨Int.le_sub_one_of_lt hleast, ?_, fun _ => ?_⟩
    · rw [← div_lt_iff₀ (two_zpow_pos _), hdouble]
      norm_num [precision]
      linarith
    · rw [← le_div_iff₀ (two_zpow_pos _), hdouble]
      norm_num [precision]
      linarith
  have hnear : |(num / den : ℚ) / 2 ^ (e - 1) - (2 ^ precision : Nat)| < 1 / 2 := by
    rw [hdouble, abs_lt]
    norm_num [precision]
    constructor <;> linarith
  rw [ofRatio_eq_settle_of_near negative (num_pos_of_scaled hpos) hden hunit hnear, settle,
    if_pos rfl, if_neg (by omega), sub_add_cancel]

/-- A ratio is rounded to a double that it is near enough to. -/
theorem ofRatio_eq_of_near (negative : Bool) {num den m : Nat} {e : Int} (hden : 0 < den)
    (hfits : Fits m e) (hm : 0 < m) (hnear : |(num / den : ℚ) / 2 ^ e - m| < 1 / 2)
    (hbelow : m = 2 ^ (precision - 1) → leastExponent < e →
      (m : ℚ) - 1 / 4 < num / den / 2 ^ e) :
    ofRatio negative num den = .finite negative m e := by
  obtain ⟨hlow, hhigh⟩ := abs_lt.1 hnear
  have hm' : (1 : ℚ) ≤ m := by exact_mod_cast hm
  have hpos : (0 : ℚ) < num / den / 2 ^ e := by linarith
  have hbits : (m : ℚ) ≤ 2 ^ precision - 1 := by
    rw [le_sub_iff_add_le]
    exact_mod_cast hfits.bits
  have hgreatest := hfits.greatest
  by_cases hshort : leastExponent < e ∧ (num / den : ℚ) / 2 ^ e < 2 ^ (precision - 1)
  · -- A mantissa of full length that is near to such a ratio is the power itself.
    obtain ⟨he, hshort⟩ := hshort
    have hpower : m = 2 ^ (precision - 1) := by
      refine le_antisymm (Nat.lt_add_one_iff.1 ?_) (not_lt.1 fun h => he.ne' (hfits.short h))
      have hlt : (m : ℚ) < 2 ^ (precision - 1) + 1 := by linarith
      exact_mod_cast hlt
    have hquarter := hbelow hpower he
    subst hpower
    exact ofRatio_eq_power negative hden he hgreatest (by exact_mod_cast hquarter) hshort
  · have hunit : HasUnit (num / den) e := by
      refine ⟨hfits.least, ?_, fun he => ?_⟩
      · rw [← div_lt_iff₀ (two_zpow_pos e)]
        linarith
      · rw [← le_div_iff₀ (two_zpow_pos e)]
        exact not_lt.1 fun h => hshort ⟨he, h⟩
    rw [ofRatio_eq_settle_of_near negative (num_pos_of_scaled hpos) hden hunit hnear, settle,
      if_neg hfits.bits.ne, if_neg hgreatest.not_gt]

end Binary64

end ApiModels
