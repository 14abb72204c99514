/-
ApiModels.Proofs.Number.Nearest — whole numbers and the doubles nearest to
them.

`Binary64.value` is what a double stands for, and `IsNearest` says that no
double is closer to a number, and that of two that are equally close the one
with an even mantissa was taken. Every ratio that is not too great is rounded
to such a double (`ofRatio_isNearest`): the multiples of the power of two at
which it is rounded include all doubles that are as great, and the others lie
below a multiple that the ratio does not lie below (`rounded_closest_scaled`).

So a whole number is turned into a double nearest to it (`ofInt?_isNearest`),
and each one up to the greatest double (`abs_value_le_greatestWhole`) is
turned into one (`ofInt?_isSome`).
Rounding keeps the order of numbers (`IsNearest.value_le`). It changes nothing
exactly if the number is a double itself: at most 53 bits, and then zeros
(`equalsInt_iff_isWhole`).
-/
import ApiModels.Proofs.Number.Rounding
import Mathlib.Algebra.Ring.Parity

namespace ApiModels

namespace Binary64

/-! ## What doubles stand for -/

/-- A sign as a factor. -/
def signOf (negative : Bool) : Int := if negative then -1 else 1

/-- The number that a finite double stands for. -/
def value : Binary64 → ℚ
  | .finite s m e => signOf s * (m * 2 ^ e)
  | _ => 0

/-- The mantissa of a finite double. -/
def mantissa : Binary64 → Nat
  | .finite _ m _ => m
  | _ => 0

/-- A double is finite, and in its one form. -/
def IsFinite : Binary64 → Prop
  | .finite _ m e => Fits m e
  | _ => False

/-- A finite double is as close to a number as any, and the even one of two that are as close. -/
structure IsNearest (x : Binary64) (q : ℚ) : Prop where
  finite : x.IsFinite
  closest : ∀ y : Binary64, y.IsFinite → |x.value - q| ≤ |y.value - q|
  even : ∀ y : Binary64, y.IsFinite → y.value ≠ x.value → |x.value - q| = |y.value - q| →
    Even x.mantissa

/-- A whole number that is a double: at most 53 bits, and then zeros. -/
def IsWhole (n : Int) : Prop :=
  ∃ m k : Nat, n.natAbs = m * 2 ^ k ∧ m < 2 ^ precision ∧ (k : Int) ≤ greatestExponent

/-- The greatest double. -/
def greatestWhole : Nat := (2 ^ precision - 1) * 2 ^ greatestExponent.toNat

theorem signOf_mul_self (s : Bool) : (signOf s : ℚ) * signOf s = 1 := by
  cases s <;> norm_num [signOf]

theorem abs_signOf_mul (s : Bool) (q : ℚ) : |(signOf s : ℚ) * q| = |q| := by
  cases s <;> simp [signOf]

theorem abs_value_finite (s : Bool) (m : Nat) (e : Int) :
    |(finite s m e).value| = m * 2 ^ e := by
  rw [value, abs_signOf_mul, abs_of_nonneg (mul_nonneg (Nat.cast_nonneg m) (two_zpow_pos e).le)]

/-- The ratio of a finite double is its value. -/
theorem toRatio?_value (s : Bool) (m : Nat) (e : Int) :
    ∃ num den, (finite s m e).toRatio? = some (num, den) ∧ 0 < den ∧
      (num : ℚ) / den = (finite s m e).value := by
  cases e with
  | ofNat k =>
    refine ⟨_, _, rfl, one_pos, ?_⟩
    simp [value, signOf]
  | negSucc k =>
    refine ⟨_, _, rfl, Nat.pow_pos (by decide), ?_⟩
    simp [value, signOf, zpow_negSucc, div_eq_mul_inv]

theorem equalsInt_iff_value {x : Binary64} (hx : x.IsFinite) (n : Int) :
    x.equalsInt n = true ↔ x.value = n := by
  cases x with
  | finite s m e =>
    obtain ⟨num, den, hratio, hden, hvalue⟩ := toRatio?_value s m e
    have hden' : (den : ℚ) ≠ 0 := by positivity
    rw [equalsInt, hratio, ← hvalue, div_eq_iff hden']
    simp only [beq_iff_eq]
    exact_mod_cast Iff.rfl
  | infinite => cases hx
  | nan => cases hx

/-- No double is greater than the greatest one. -/
theorem abs_value_le_greatestWhole {x : Binary64} (hx : x.IsFinite) :
    |x.value| ≤ greatestWhole := by
  cases x with
  | finite s m e =>
    have hbits : (m : ℚ) ≤ (2 ^ precision - 1 : Nat) := by
      exact_mod_cast Nat.le_sub_one_of_lt hx.bits
    have hgreatest : greatestExponent = (greatestExponent.toNat : Int) := by decide
    calc |(finite s m e).value| = m * 2 ^ e := abs_value_finite s m e
      _ ≤ (2 ^ precision - 1 : Nat) * 2 ^ greatestExponent :=
          mul_le_mul hbits (zpow_le_zpow_right₀ (by norm_num) hx.greatest) (two_zpow_pos e).le
            (Nat.cast_nonneg _)
      _ = greatestWhole := by
          rw [hgreatest, zpow_natCast, greatestWhole, Nat.cast_mul, Nat.cast_pow, Nat.cast_ofNat]
  | infinite => cases hx
  | nan => cases hx

/-! ## Rounding a quotient -/

/-- Steps to the left of a remainder, and to the right of it. -/
theorem abs_remainder_le {b r : Int} (hr : 0 ≤ r) (hrb : r < b) (d : Int) :
    (2 * r ≤ b → |r| ≤ |d * b - r| ∧ (|r| = |d * b - r| → d ≠ 0 → 2 * r = b)) ∧
    (b ≤ 2 * r → |b - r| ≤ |d * b - r| ∧ (|b - r| = |d * b - r| → d ≠ 1 → 2 * r = b)) := by
  rcases le_or_gt d 0 with hd | hd
  · have hle : d * b ≤ 0 := mul_nonpos_of_nonpos_of_nonneg hd (by omega)
    rw [abs_of_nonneg hr, abs_of_nonneg (show 0 ≤ b - r by omega),
      abs_of_nonpos (show d * b - r ≤ 0 by omega)]
    refine ⟨fun h => ⟨by omega, fun heq hne => ?_⟩, fun h => ⟨by omega, fun heq hne => ?_⟩⟩
    · have hlt : d * b ≤ -1 * b := mul_le_mul_of_nonneg_right (by omega) (by omega)
      omega
    · omega
  · have hge : 1 * b ≤ d * b := mul_le_mul_of_nonneg_right (by omega) (by omega)
    rw [abs_of_nonneg hr, abs_of_nonneg (show 0 ≤ b - r by omega),
      abs_of_nonneg (show 0 ≤ d * b - r by omega)]
    refine ⟨fun h => ⟨by omega, fun heq hne => by omega⟩, fun h => ⟨by omega, fun heq hne => ?_⟩⟩
    have hgt : 2 * b ≤ d * b := mul_le_mul_of_nonneg_right (by omega) (by omega)
    omega

/-- No whole number is closer to a quotient than the one that it is rounded to. -/
theorem roundHalfEven_closest (a : Nat) {b : Nat} (hb : 0 < b) (k : Int) :
    |(roundHalfEven a b : Int) * b - a| ≤ |k * b - a| ∧
    (|(roundHalfEven a b : Int) * b - a| = |k * b - a| → k ≠ roundHalfEven a b →
      Even (roundHalfEven a b)) := by
  have hsplit : (a : Int) = b * (a / b : Nat) + (a % b : Nat) := by
    exact_mod_cast (Nat.div_add_mod a b).symm
  have hmod : ((a % b : Nat) : Int) < b := by exact_mod_cast Nat.mod_lt a hb
  have hstep : ∀ j : Int, j * b - a = (j - (a / b : Nat)) * b - (a % b : Nat) := by
    intro j
    rw [hsplit]
    ring
  obtain ⟨hlow, hhigh⟩ := abs_remainder_le (Int.natCast_nonneg (a % b)) hmod (k - (a / b : Nat))
  have hhere : ((a / b : Nat) - (a / b : Nat) : Int) * b - (a % b : Nat) = -(a % b : Nat) := by ring
  have hnext : ((a / b + 1 : Nat) - (a / b : Nat) : Int) * b - (a % b : Nat) =
      b - (a % b : Nat) := by
    push_cast
    ring
  rw [hstep, hstep k]
  unfold roundHalfEven
  simp only
  split_ifs with hless hmore heven
  · rw [hhere, abs_neg]
    refine ⟨(hlow (by omega)).1, fun heq hne => ?_⟩
    have := (hlow (by omega)).2 heq (by omega)
    omega
  · rw [hnext]
    refine ⟨(hhigh (by omega)).1, fun heq hne => ?_⟩
    have := (hhigh (by omega)).2 heq (by omega)
    omega
  · rw [hhere, abs_neg]
    exact ⟨(hlow (by omega)).1, fun _ _ => Nat.even_iff.2 heven⟩
  · rw [hnext]
    exact ⟨(hhigh (by omega)).1, fun _ _ => Nat.even_add_one.2 fun h => heven (Nat.even_iff.1 h)⟩

/-! ## The double nearest to a ratio -/

section

variable {num den : Nat} {e : Int}

/-- A greater power of two is a multiple of a smaller one. -/
theorem two_zpow_of_le {d e : Int} (h : d ≤ e) : (2 : ℚ) ^ e = 2 ^ (e - d).toNat * 2 ^ d := by
  rw [← zpow_natCast, ← two_zpow_add]
  congr 1
  omega

/-- The mantissa of a ratio at an exponent. -/
def mantissaAt (num den : Nat) (e : Int) : Nat :=
  roundHalfEven (scale num den e).1 (scale num den e).2

/-- Of the multiples of a power of two, the one that is taken is as close to a ratio as any. -/
theorem mantissaAt_closest (num : Nat) (hden : 0 < den) (e k : Int) :
    |(mantissaAt num den e * 2 ^ e : ℚ) - num / den| ≤ |(k * 2 ^ e : ℚ) - num / den| ∧
    (|(mantissaAt num den e * 2 ^ e : ℚ) - num / den| = |(k * 2 ^ e : ℚ) - num / den| →
      k ≠ mantissaAt num den e → Even (mantissaAt num den e)) := by
  have hb : (0 : ℚ) < (scale num den e).2 := by exact_mod_cast scale_den_pos num hden e
  have hunit := two_zpow_pos e
  have hfactor : (0 : ℚ) < (scale num den e).2 / 2 ^ e := by positivity
  have hscaled : ∀ j : Int, ((|j * (scale num den e).2 - (scale num den e).1| : Int) : ℚ) =
      |(j * 2 ^ e : ℚ) - num / den| * ((scale num den e).2 / 2 ^ e) := by
    intro j
    rw [← abs_of_pos hfactor, ← abs_mul]
    push_cast
    rw [scaled_mul num hden e]
    congr 1
    field_simp
  obtain ⟨hle, htie⟩ := roundHalfEven_closest (scale num den e).1 (scale_den_pos num hden e) k
  rw [← Int.cast_le (R := ℚ), hscaled, hscaled, mul_le_mul_iff_left₀ hfactor] at hle
  refine ⟨by exact_mod_cast hle, fun heq => htie (Int.cast_injective (α := ℚ) ?_)⟩
  rw [hscaled, hscaled]
  exact congrArg (· * _) (by exact_mod_cast heq)

/-- The multiple of a power of two that a ratio is rounded to. -/
def rounded (num den : Nat) : ℚ :=
  mantissaAt num den (unitExponent num den) * 2 ^ unitExponent num den

/-- No multiple of a power of two with at most 53 bits is closer to a ratio, whatever its sign. -/
theorem rounded_closest_scaled (hnum : 0 < num) (hden : 0 < den) {m : Nat} (hfits : Fits m e)
    {sign : Int} (hsign : sign ≤ 1) :
    |rounded num den - num / den| ≤ |(sign * (m * 2 ^ e) : ℚ) - num / den| ∧
    (|rounded num den - num / den| = |(sign * (m * 2 ^ e) : ℚ) - num / den| →
      (sign * (m * 2 ^ e) : ℚ) ≠ rounded num den →
      Even (mantissaAt num den (unitExponent num den))) := by
  unfold rounded
  generalize hunit : unitExponent num den = unit
  rcases le_or_gt unit e with hle | hlt
  · -- A double with no smaller exponent is a multiple itself.
    have hmultiple : (sign * (m * 2 ^ e) : ℚ) = ((sign * (m * 2 ^ (e - unit).toNat) : Int) : ℚ) *
        2 ^ unit := by
      push_cast
      rw [two_zpow_of_le hle]
      ring
    obtain ⟨hclosest, heven⟩ :=
      mantissaAt_closest num hden unit (sign * (m * 2 ^ (e - unit).toNat))
    rw [hmultiple]
    refine ⟨hclosest, fun heq hne => heven heq fun hsame => hne ?_⟩
    rw [hsame]
    exact_mod_cast rfl
  · -- One with a smaller exponent lies below a multiple that the ratio does not lie below.
    have hratio : ((2 ^ (precision - 1) : Int) * 2 ^ unit : ℚ) ≤ num / den := by
      subst hunit
      exact_mod_cast (unitExponent_spec hnum hden).low (hfits.least.trans_lt hlt)
    have hbits : (m : ℚ) < 2 ^ precision := by exact_mod_cast hfits.bits
    have hbelow : (sign * (m * 2 ^ e) : ℚ) < (2 ^ (precision - 1) : Int) * 2 ^ unit := by
      calc (sign * (m * 2 ^ e) : ℚ) ≤ 1 * (m * 2 ^ e) :=
            mul_le_mul_of_nonneg_right (by exact_mod_cast hsign)
              (mul_nonneg (Nat.cast_nonneg m) (two_zpow_pos e).le)
        _ = m * 2 ^ e := one_mul _
        _ < 2 ^ precision * 2 ^ e := mul_lt_mul_of_pos_right hbits (two_zpow_pos e)
        _ ≤ 2 ^ precision * 2 ^ (unit - 1) :=
            mul_le_mul_of_nonneg_left (zpow_le_zpow_right₀ (by norm_num) (by omega)) (by positivity)
        _ = (2 ^ (precision - 1) : Int) * 2 ^ unit := by
            rw [zpow_sub_one₀ (by norm_num)]
            norm_num [precision]
            ring
    obtain ⟨hclosest, -⟩ := mantissaAt_closest num hden unit (2 ^ (precision - 1))
    have hstrict : |(mantissaAt num den unit * 2 ^ unit : ℚ) - num / den| <
        |(sign * (m * 2 ^ e) : ℚ) - num / den| := by
      refine lt_of_le_of_lt hclosest ?_
      rw [abs_of_nonpos (sub_nonpos.2 hratio), abs_of_nonpos (by linarith)]
      linarith
    exact ⟨hstrict.le, fun heq _ => absurd heq hstrict.ne⟩

/-- No double is closer to a ratio than the multiple that it is rounded to, whatever its sign. -/
theorem rounded_closest (hnum : 0 < num) (hden : 0 < den) (negative : Bool) {y : Binary64}
    (hy : y.IsFinite) :
    |rounded num den - num / den| ≤ |signOf negative * y.value - num / den| ∧
    (|rounded num den - num / den| = |signOf negative * y.value - num / den| →
      signOf negative * y.value ≠ rounded num den →
      Even (mantissaAt num den (unitExponent num den))) := by
  cases y with
  | finite s m e =>
    have hsign : signOf negative * signOf s ≤ 1 := by cases negative <;> cases s <;> decide
    have hclosest := rounded_closest_scaled hnum hden hy hsign
    rw [Int.cast_mul, mul_assoc] at hclosest
    exact hclosest
  | infinite => cases hy
  | nan => cases hy

theorem settle_finite {negative : Bool} {m : Nat} (h : (settle negative m e).IsFinite) :
    (settle negative m e).value = signOf negative * (m * 2 ^ e) ∧
    (Even m → Even (settle negative m e).mantissa) := by
  unfold settle at h ⊢
  split_ifs at h ⊢ with hlong hgreat hgreat
  · cases h
  · refine ⟨?_, fun _ => ⟨2 ^ (precision - 2), rfl⟩⟩
    rw [hlong, value, zpow_add_one₀ (by norm_num)]
    push_cast
    simp only [precision]
    ring
  · cases h
  · exact ⟨rfl, id⟩

theorem ofRatio_finite (negative : Bool) (hnum : 0 < num) (den : Nat)
    (hfinite : (ofRatio negative num den).IsFinite) :
    (ofRatio negative num den).value = signOf negative * rounded num den ∧
    (Even (mantissaAt num den (unitExponent num den)) →
      Even (ofRatio negative num den).mantissa) := by
  rw [ofRatio_eq_settle negative hnum] at hfinite ⊢
  exact settle_finite hfinite

/-- A ratio is rounded to a double that is nearest to it, if it is not rounded to an infinity. -/
theorem ofRatio_isNearest (negative : Bool) (num : Nat) (hden : 0 < den)
    (hfinite : (ofRatio negative num den).IsFinite) :
    (ofRatio negative num den).IsNearest (signOf negative * (num / den)) := by
  rcases Nat.eq_zero_or_pos num with rfl | hnum
  · have hvalue : (ofRatio negative 0 den).value = 0 := by simp [ofRatio, zero, value]
    refine ⟨hfinite, fun y _ => ?_, fun y _ _ _ => ⟨0, rfl⟩⟩
    rw [hvalue]
    simp
  · obtain ⟨hvalue, heven⟩ := ofRatio_finite negative hnum den hfinite
    have hcancel : ∀ q : ℚ, signOf negative * (signOf negative * q) = q := by
      intro q
      rw [← mul_assoc, signOf_mul_self, one_mul]
    -- With the sign on the side of the double, the ratio is positive.
    have hsigned : ∀ q : ℚ, |q - signOf negative * (num / den)| =
        |signOf negative * q - num / den| := by
      intro q
      rw [← abs_signOf_mul negative (q - _), mul_sub, hcancel]
    have htaken : |(ofRatio negative num den).value - signOf negative * (num / den)| =
        |rounded num den - num / den| := by
      rw [hsigned, hvalue, hcancel]
    refine ⟨hfinite, fun y hy => ?_, fun y hy hne heq => ?_⟩
    · exact htaken.le.trans ((rounded_closest hnum hden negative hy).1.trans (hsigned _).ge)
    · refine heven ((rounded_closest hnum hden negative hy).2
        (htaken.symm.trans (heq.trans (hsigned _))) fun hsame => hne ?_)
      rw [hvalue, ← hcancel y.value, hsame]

/-- A ratio that is a multiple of a power of two with at most 53 bits is rounded to itself. -/
theorem rounded_eq {m : Nat} (hnum : 0 < num) (hden : 0 < den)
    (hm : m < 2 ^ precision) (he : leastExponent ≤ e) (heq : (num / den : ℚ) = m * 2 ^ e) :
    rounded num den = num / den := by
  have hbits : (m : ℚ) < 2 ^ precision := by exact_mod_cast hm
  have hunit : unitExponent num den ≤ e := by
    refine (unitExponent_spec hnum hden).le he ?_
    rw [heq]
    exact mul_lt_mul_of_pos_right hbits (two_zpow_pos e)
  have hmultiple : ((m * 2 ^ (e - unitExponent num den).toNat : Int) : ℚ) *
      2 ^ unitExponent num den = num / den := by
    rw [heq, two_zpow_of_le hunit]
    push_cast
    ring
  have hclosest := (mantissaAt_closest num hden (unitExponent num den)
    (m * 2 ^ (e - unitExponent num den).toNat)).1
  rw [hmultiple, sub_self, abs_zero] at hclosest
  exact sub_eq_zero.1 (abs_nonpos_iff.1 hclosest)

end

/-! ## Order -/

/-- Rounding keeps the order of numbers. -/
theorem IsNearest.value_le {x y : Binary64} {q r : ℚ} (hx : x.IsNearest q) (hy : y.IsNearest r)
    (h : q < r) : x.value ≤ y.value := by
  by_contra hlt
  rw [not_le] at hlt
  -- Each number lies on the side of its own double, so the smaller one is the greater one.
  have hq := sq_le_sq.2 (hx.closest y hy.finite)
  have hr := sq_le_sq.2 (hy.closest x hx.finite)
  nlinarith

/-! ## Whole numbers -/

theorem scale_natCast (num den k : Nat) : scale num den k = (num, den * 2 ^ k) := rfl

section

variable {n n' : Int} {x x' : Binary64}

theorem ofInt?_eq (h : ofInt? n = some x) : ofRatio (n < 0) n.natAbs 1 = x ∧ x.IsFinite := by
  have hproper := ofRatio_proper (n < 0) n.natAbs one_pos
  unfold ofInt? ofSignedRatio at h
  generalize ofRatio (n < 0) n.natAbs 1 = y at h hproper
  cases y with
  | finite s m e =>
    cases h
    exact ⟨rfl, hproper⟩
  | infinite => cases h
  | nan => cases h

theorem signOf_mul_natAbs (n : Int) : (signOf (n < 0) * (n.natAbs / (1 : Nat)) : ℚ) = n := by
  have hsign : signOf (n < 0) * (n.natAbs : Int) = n := by
    rcases lt_or_ge n 0 with h | h
    · rw [signOf, if_pos (by simpa using h)]
      omega
    · rw [signOf, if_neg (by simpa using h)]
      omega
  rw [Nat.cast_one, div_one, ← Int.cast_natCast]
  exact_mod_cast hsign

/-- A whole number is turned into a double that is nearest to it. -/
theorem ofInt?_isNearest (h : ofInt? n = some x) : x.IsNearest n := by
  obtain ⟨rfl, hfinite⟩ := ofInt?_eq h
  have hnearest := ofRatio_isNearest (n < 0) n.natAbs one_pos hfinite
  rwa [signOf_mul_natAbs] at hnearest

/-- Every whole number up to the greatest double is turned into a double. -/
theorem ofInt?_isSome (h : n.natAbs ≤ greatestWhole) : ∃ x, ofInt? n = some x := by
  unfold ofInt? ofSignedRatio
  rcases Nat.eq_zero_or_pos n.natAbs with hzero | hpos
  · rw [hzero]
    exact ⟨_, rfl⟩
  · have hunit : unitExponent n.natAbs 1 ≤ greatestExponent := by
      refine (unitExponent_spec hpos one_pos).le (by decide) ?_
      have hlt : n.natAbs < 2 ^ precision * 2 ^ greatestExponent.toNat :=
        h.trans_lt (Nat.mul_lt_mul_of_pos_right (by decide) (Nat.two_pow_pos _))
      rw [Nat.cast_one, div_one, show greatestExponent = (greatestExponent.toNat : Int) by decide,
        zpow_natCast]
      exact_mod_cast hlt
    -- At the greatest exponent there is no carry, since the greatest double is a multiple there.
    have hcarry : mantissaAt n.natAbs 1 greatestExponent < 2 ^ precision := by
      obtain ⟨k, hk⟩ : ∃ k : Nat, greatestExponent = k := Int.eq_ofNat_of_zero_le (by decide)
      rw [greatestWhole, hk, Int.toNat_natCast] at h
      rw [mantissaAt, hk, scale_natCast, one_mul]
      exact (roundHalfEven_le (Nat.two_pow_pos k) h).trans_lt (by decide)
    rw [ofRatio_eq_settle _ hpos, settle]
    split_ifs with hlong hgreat hgreat
    · have heq : unitExponent n.natAbs 1 = greatestExponent := by omega
      rw [heq] at hlong
      exact absurd hlong hcarry.ne
    · exact ⟨_, rfl⟩
    · omega
    · exact ⟨_, rfl⟩

theorem isWhole_of_value_eq (hx : x.IsFinite) (h : x.value = n) : IsWhole n := by
  cases x with
  | finite s m e =>
    have habs : (n.natAbs : ℚ) = m * 2 ^ e := by
      rw [Nat.cast_natAbs, Int.cast_abs, ← h, abs_value_finite]
    cases e with
    | ofNat k =>
      rw [Int.ofNat_eq_natCast, zpow_natCast] at habs
      exact ⟨m, k, by exact_mod_cast habs, hx.bits, hx.greatest⟩
    | negSucc k =>
      -- A whole number at a negative exponent is no greater than the mantissa.
      have hle : (n.natAbs : ℚ) ≤ m := by
        rw [habs]
        refine mul_le_of_le_one_right (Nat.cast_nonneg m) ?_
        exact zpow_le_one_of_nonpos₀ (by norm_num) (Int.negSucc_lt_zero k).le
      have hbits : n.natAbs < 2 ^ precision := lt_of_le_of_lt (by exact_mod_cast hle) hx.bits
      exact ⟨n.natAbs, 0, by simp, hbits, by decide⟩
  | infinite => cases hx
  | nan => cases hx

theorem value_eq_of_isWhole (h : ofInt? n = some x) (hn : IsWhole n) : x.value = n := by
  obtain ⟨rfl, hfinite⟩ := ofInt?_eq h
  obtain ⟨m, k, habs, hm, -⟩ := hn
  rcases Nat.eq_zero_or_pos n.natAbs with hzero | hpos
  · obtain rfl := Int.natAbs_eq_zero.1 hzero
    simp [ofRatio, zero, value]
  · have hrounded : rounded n.natAbs 1 = n.natAbs / (1 : Nat) := by
      refine rounded_eq hpos one_pos hm (e := k) (by unfold leastExponent; omega) ?_
      rw [habs]
      simp
    rw [(ofRatio_finite _ hpos 1 hfinite).1, hrounded, signOf_mul_natAbs]

/-- The double is the whole number exactly if that is a double itself. -/
theorem equalsInt_iff_isWhole (h : ofInt? n = some x) : x.equalsInt n = true ↔ IsWhole n := by
  have hfinite := (ofInt?_eq h).2
  rw [equalsInt_iff_value hfinite]
  exact ⟨isWhole_of_value_eq hfinite, value_eq_of_isWhole h⟩

theorem isWhole_of_natAbs_le (h : n.natAbs ≤ 2 ^ precision) : IsWhole n := by
  rcases h.lt_or_eq with hlt | heq
  · exact ⟨n.natAbs, 0, by simp, hlt, by decide⟩
  · exact ⟨2 ^ (precision - 1), 1, heq, by decide, by decide⟩

theorem value_le_value (h : ofInt? n = some x) (h' : ofInt? n' = some x') (hle : n ≤ n') :
    x.value ≤ x'.value := by
  rcases hle.lt_or_eq with hlt | rfl
  · exact (ofInt?_isNearest h).value_le (ofInt?_isNearest h') (by exact_mod_cast hlt)
  · rw [Option.some.inj (h.symm.trans h')]

/-- Whole numbers that are doubles stay different. -/
theorem value_ne_value (h : ofInt? n = some x) (h' : ofInt? n' = some x') (hn : IsWhole n)
    (hn' : IsWhole n') (hne : n ≠ n') : x.value ≠ x'.value := by
  rw [value_eq_of_isWhole h hn, value_eq_of_isWhole h' hn']
  exact_mod_cast hne

end

end Binary64

end ApiModels
