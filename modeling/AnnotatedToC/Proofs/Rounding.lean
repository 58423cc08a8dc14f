import AnnotatedToC.Decimal.Shortest
import Mathlib.Algebra.Order.Field.Power
import Mathlib.Data.Nat.Log
import Mathlib.Data.Rat.Cast.Order
import Mathlib.Tactic.FieldSimp
import Mathlib.Tactic.Linarith
import Mathlib.Tactic.Positivity
import Mathlib.Tactic.Ring

/-!
# Rounding to doubles

A fraction that is the value of a double rounds to that double. What matters is the number that the
fraction stands for: scaling multiplies it by a power of the base, and the binary logarithm is found
exactly, so the scaled fraction is the integer significand and nothing is left to round.
-/
namespace AnnotatedToC

namespace Ratio

/-- The number that a fraction stands for. -/
def toRat (r : Ratio) : ℚ := r.num / r.den

theorem den_scale_pos {r : Ratio} (h : 0 < r.den) {base : Nat} (hbase : 0 < base) (k : Int) :
    0 < (r.scale base k).den := by
  cases k with
  | ofNat k => exact h
  | negSucc k => exact Nat.mul_pos h (Nat.pow_pos hbase)

theorem toRat_scale (r : Ratio) {base : Nat} (hbase : 0 < base) (k : Int) :
    (r.scale base k).toRat = r.toRat * (base : ℚ) ^ k := by
  have hb : (base : ℚ) ≠ 0 := by exact_mod_cast hbase.ne'
  cases k with
  | ofNat k =>
    simp only [scale, toRat, Nat.pow_eq, Nat.cast_mul, Nat.cast_pow, Int.ofNat_eq_natCast, zpow_natCast]
    ring
  | negSucc k =>
    simp only [scale, toRat, Nat.pow_eq, Nat.cast_mul, Nat.cast_pow, zpow_negSucc]
    rw [div_mul_eq_div_div, div_eq_mul_inv]

theorem toRat_ofScientific (n : Nat) {base : Nat} (hbase : 0 < base) (e : Int) :
    (ofScientific n base e).toRat = n * (base : ℚ) ^ e := by
  rw [ofScientific, toRat_scale _ hbase]
  simp [toRat]

/-- Comparing numerator and denominator is comparing with one. -/
theorem num_lt_den {r : Ratio} (h : 0 < r.den) : r.num < r.den ↔ r.toRat < 1 := by
  have hd : (0 : ℚ) < r.den := by exact_mod_cast h
  rw [toRat, div_lt_one hd]
  exact_mod_cast Iff.rfl

theorem two_zpow_sub (a b : Nat) : (2 : ℚ) ^ ((a : Int) - b) = 2 ^ a / 2 ^ b := by
  rw [zpow_sub₀ two_ne_zero, zpow_natCast, zpow_natCast]

/-- The lengths of numerator and denominator give the binary logarithm up to one. -/
theorem toRat_bounds {r : Ratio} (hnum : r.num ≠ 0) (hden : r.den ≠ 0) :
    (2 : ℚ) ^ ((r.num.log2 : Int) - r.den.log2 - 1) < r.toRat ∧
      r.toRat < 2 ^ ((r.num.log2 : Int) - r.den.log2 + 1) := by
  have hd : (0 : ℚ) < r.den := by exact_mod_cast Nat.pos_of_ne_zero hden
  have hnum₁ : (2 : ℚ) ^ r.num.log2 ≤ r.num := by exact_mod_cast Nat.log2_self_le hnum
  have hnum₂ : (r.num : ℚ) < 2 ^ (r.num.log2 + 1) := by exact_mod_cast Nat.lt_log2_self
  have hden₁ : (2 : ℚ) ^ r.den.log2 ≤ r.den := by exact_mod_cast Nat.log2_self_le hden
  have hden₂ : (r.den : ℚ) < 2 ^ (r.den.log2 + 1) := by exact_mod_cast Nat.lt_log2_self
  have hlow := two_zpow_sub r.num.log2 (r.den.log2 + 1)
  have hhigh := two_zpow_sub (r.num.log2 + 1) r.den.log2
  rw [Nat.cast_succ, ← sub_sub] at hlow
  rw [Nat.cast_succ, add_sub_right_comm] at hhigh
  rw [hlow, hhigh, toRat]
  constructor
  · exact div_lt_div₀' hnum₁ hden₂ (by positivity) hd
  · exact div_lt_div₀ hnum₂ hden₁ (by positivity) (by positivity)

/-- The binary logarithm of a fraction is exact. -/
theorem log2_spec {r : Ratio} (hnum : r.num ≠ 0) (hden : r.den ≠ 0) :
    (2 : ℚ) ^ r.log2 ≤ r.toRat ∧ r.toRat < 2 ^ (r.log2 + 1) := by
  obtain ⟨hlow, hhigh⟩ := toRat_bounds hnum hden
  have hpos : 0 < r.den := Nat.pos_of_ne_zero hden
  set guess : Int := (r.num.log2 : Int) - r.den.log2 with hguess
  have hrest : (r.scale 2 (-guess)).toRat < 1 ↔ r.toRat < 2 ^ guess := by
    rw [toRat_scale r (by norm_num), zpow_neg, Nat.cast_ofNat, ← div_eq_mul_inv,
      div_lt_one (by positivity)]
  have hlog : r.log2 = if r.toRat < 2 ^ guess then guess - 1 else guess := by
    simp only [log2, num_lt_den (den_scale_pos hpos (by norm_num : 0 < 2) _), ← hguess, hrest]
  rw [hlog]
  split_ifs with hlt
  · exact ⟨hlow.le, by rwa [sub_add_cancel]⟩
  · exact ⟨not_lt.mp hlt, hhigh⟩

/-- The binary logarithm is determined by the powers of two around the fraction. -/
theorem log2_eq {r : Ratio} (hnum : r.num ≠ 0) (hden : r.den ≠ 0) {e : Int}
    (hlow : (2 : ℚ) ^ e ≤ r.toRat) (hhigh : r.toRat < 2 ^ (e + 1)) : r.log2 = e := by
  obtain ⟨hlog₁, hlog₂⟩ := log2_spec hnum hden
  have htwo : (1 : ℚ) < 2 := by norm_num
  have h₁ : r.log2 < e + 1 := (zpow_lt_zpow_iff_right₀ htwo).mp (hlog₁.trans_lt hhigh)
  have h₂ : e < r.log2 + 1 := (zpow_lt_zpow_iff_right₀ htwo).mp (hlow.trans_lt hlog₂)
  omega

theorem log2_lt {r : Ratio} (hnum : r.num ≠ 0) (hden : r.den ≠ 0) {e : Int}
    (hhigh : r.toRat < 2 ^ e) : r.log2 < e :=
  (zpow_lt_zpow_iff_right₀ (by norm_num : (1 : ℚ) < 2)).mp
    ((log2_spec hnum hden).1.trans_lt hhigh)

theorem roundEven_le {r : Ratio} (hden : 0 < r.den) {n : Nat} (h : r.toRat < n) :
    r.roundEven ≤ n := by
  have hfloor : r.floor < n := by
    have hd : (0 : ℚ) < r.den := by exact_mod_cast hden
    rw [toRat, div_lt_iff₀ hd] at h
    exact (Nat.div_lt_iff_lt_mul hden).mpr (by exact_mod_cast h)
  unfold roundEven
  split <;> omega

/-- An integer is rounded to itself. -/
theorem roundEven_eq {r : Ratio} (hden : 0 < r.den) {n : Nat} (h : r.toRat = n) :
    r.roundEven = n := by
  have hd : (r.den : ℚ) ≠ 0 := by exact_mod_cast hden.ne'
  have hnum : r.num = n * r.den := by
    rw [toRat, div_eq_iff hd] at h
    exact_mod_cast h
  have hhalf : r.compareHalf = .lt := by
    rw [compareHalf, hnum, Nat.mul_mod_left, Nat.mul_zero, Nat.compare_eq_lt]
    exact hden
  rw [roundEven, hhalf]
  simp only [floor, hnum, Nat.mul_div_cancel _ hden]

end Ratio

namespace Double

theorem significand_cases (m : Nat) :
    (m < 2 ^ 52 ∧ significand m = m) ∨
      (2 ^ 52 ≤ m ∧ significand m = 2 ^ 52 + m % 2 ^ 52) := by
  rcases Nat.lt_or_ge m leadingBit with hlt | hge
  · exact .inl ⟨hlt, if_pos hlt⟩
  · exact .inr ⟨hge, if_neg (Nat.not_lt.mpr hge)⟩

theorem exponent_eq (m : Nat) : exponent m = (max (m / 2 ^ 52) 1 : Nat) - 1075 := rfl

theorem significand_lt (m : Nat) : significand m < 2 ^ 53 := by
  rcases significand_cases m with ⟨hm, hsig⟩ | ⟨hm, hsig⟩ <;> omega

/-- Only the least exponent has significands below `2 ^ 52`. -/
theorem exponent_cases (m : Nat) :
    (significand m < 2 ^ 52 ∧ exponent m = -1074) ∨
      (2 ^ 52 ≤ significand m ∧ -1074 ≤ exponent m) := by
  rw [exponent_eq]
  rcases significand_cases m with ⟨hm, hsig⟩ | ⟨hm, hsig⟩ <;> omega

/-- The magnitude is put together from the exponent and the significand. -/
theorem exponent_significand (m : Nat) :
    (exponent m + 1074).toNat * 2 ^ 52 + significand m = m := by
  rw [exponent_eq]
  rcases significand_cases m with ⟨hm, hsig⟩ | ⟨hm, hsig⟩ <;> omega

theorem significand_ne_zero {m : Nat} (hm : m ≠ 0) : significand m ≠ 0 := by
  rcases significand_cases m with ⟨hm, hsig⟩ | ⟨hm, hsig⟩ <;> omega

/-- The exponent that rounding finds for the value of a magnitude is that of the magnitude. -/
theorem max_log2_eq {r : Ratio} (hnum : r.num ≠ 0) (hden : r.den ≠ 0) {m : Nat}
    (h : r.toRat = significand m * (2 : ℚ) ^ exponent m) :
    max (r.log2 - 52) (-1074) = exponent m := by
  have htwo : (2 : ℚ) ≠ 0 := two_ne_zero
  rcases exponent_cases m with ⟨hsig, hexp⟩ | ⟨hsig, hexp⟩
  · have hlog : r.log2 < -1022 := by
      apply Ratio.log2_lt hnum hden
      have hsig' : (significand m : ℚ) < 2 ^ 52 := by exact_mod_cast hsig
      rw [h, hexp, show (-1022 : Int) = 52 + -1074 by norm_num, zpow_add₀ htwo]
      exact mul_lt_mul_of_pos_right hsig' (by positivity)
    omega
  · have hlog : r.log2 = exponent m + 52 := by
      have hlow : (2 : ℚ) ^ 52 ≤ significand m := by exact_mod_cast hsig
      have hhigh : (significand m : ℚ) < 2 ^ 53 := by exact_mod_cast significand_lt m
      apply Ratio.log2_eq hnum hden
      · rw [h, zpow_add₀ htwo, mul_comm]
        exact mul_le_mul_of_nonneg_right hlow (by positivity)
      · rw [h, add_assoc, zpow_add₀ htwo, mul_comm]
        exact mul_lt_mul_of_pos_left hhigh (by positivity)
    omega

/-- A fraction that stands for the value of a magnitude is nearest to that magnitude. -/
theorem nearest_eq {r : Ratio} (hden : 0 < r.den) {m : Nat} (hm : m ≠ 0)
    (h : r.toRat = significand m * (2 : ℚ) ^ exponent m) : nearest r = m := by
  have hpos : (0 : ℚ) < r.toRat := by
    have hsig : (0 : ℚ) < significand m := by
      exact_mod_cast Nat.pos_of_ne_zero (significand_ne_zero hm)
    rw [h]
    positivity
  have hnum : r.num ≠ 0 := by
    rintro hzero
    simp [Ratio.toRat, hzero] at hpos
  have hround : (r.scale 2 (-exponent m)).roundEven = significand m := by
    apply Ratio.roundEven_eq (Ratio.den_scale_pos hden (by norm_num) _)
    rw [Ratio.toRat_scale r (by norm_num), h, Nat.cast_ofNat, mul_assoc,
      ← zpow_add₀ two_ne_zero, add_neg_cancel, zpow_zero, mul_one]
  simp only [nearest, if_neg hnum, max_log2_eq hnum hden.ne' h, hround]
  exact exponent_significand m

/-- A double is put together from its sign and its magnitude. -/
theorem ofMagnitude_magnitude (d : Double) :
    ofMagnitude d.isNegative d.magnitude = d := by
  have hlt : d.bits.toNat < 2 ^ 64 := d.bits.toNat_lt
  have hbits : (if d.isNegative then signBit + d.magnitude else d.magnitude) = d.bits.toNat := by
    simp only [isNegative, magnitude, decide_eq_true_eq]
    rw [show signBit = 2 ^ 63 from rfl]
    split_ifs <;> omega
  rw [ofMagnitude, hbits, UInt64.ofNat_toNat]

theorem magnitude_ofMagnitude (negative : Bool) {m : Nat} (hm : m < signBit) :
    (ofMagnitude negative m).magnitude = m := by
  have hsign : signBit = 2 ^ 63 := rfl
  rw [magnitude, ofMagnitude, UInt64.toNat_ofNat', hsign]
  split_ifs <;> omega

theorem isFinite_ofMagnitude (negative : Bool) {m : Nat} (hm : m < infinity) :
    (ofMagnitude negative m).isFinite = true := by
  have hsign : m < signBit := hm.trans (by decide)
  rw [isFinite, magnitude_ofMagnitude negative hsign]
  exact decide_eq_true hm

/-- Far below the greatest double rounding does not overflow. -/
theorem nearest_lt_infinity {r : Ratio} (hden : 0 < r.den) (h : r.toRat < 2 ^ 1023) :
    nearest r < infinity := by
  rw [nearest]
  split_ifs with hnum
  · decide
  have hlog : r.log2 < 1023 := Ratio.log2_lt hnum hden.ne' (by exact_mod_cast h)
  obtain ⟨-, hhigh⟩ := Ratio.log2_spec hnum hden.ne'
  set e : Int := max (r.log2 - 52) (-1074) with he
  have hscaled : (r.scale 2 (-e)).toRat < (2 ^ 53 : Nat) := by
    have htwo : (0 : ℚ) < 2 ^ e := by positivity
    rw [Ratio.toRat_scale r (by norm_num), zpow_neg, Nat.cast_ofNat, ← div_eq_mul_inv,
      div_lt_iff₀ htwo]
    calc r.toRat < 2 ^ (r.log2 + 1) := hhigh
      _ ≤ (2 : ℚ) ^ (53 + e) := zpow_le_zpow_right₀ (by norm_num) (by omega)
      _ = (2 ^ 53 : Nat) * 2 ^ e := by
        rw [zpow_add₀ two_ne_zero]
        norm_num
  have hround := Ratio.roundEven_le (Ratio.den_scale_pos hden (by norm_num) (-e)) hscaled
  have hexp : (e + 1074).toNat ≤ 2044 := by omega
  have hinf : infinity = 2047 * 2 ^ 52 := rfl
  have hlead : leadingBit = 2 ^ 52 := rfl
  change (e + 1074).toNat * leadingBit + (r.scale 2 (-e)).roundEven < infinity
  rw [hinf, hlead]
  omega

theorem isFinite_ofInt {n : Int} (h : n.natAbs < 2 ^ 64) : (ofInt n).isFinite = true := by
  apply isFinite_ofMagnitude
  apply nearest_lt_infinity Nat.one_pos
  have hcast : (n.natAbs : ℚ) < 2 ^ 64 := by exact_mod_cast h
  have hpow : (2 : ℚ) ^ 64 < 2 ^ 1023 := pow_lt_pow_right₀ (by norm_num) (by norm_num)
  simpa [Ratio.toRat] using hcast.trans hpow

end Double

end AnnotatedToC
