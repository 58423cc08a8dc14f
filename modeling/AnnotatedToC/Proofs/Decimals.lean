import AnnotatedToC.Decimal.Style
import AnnotatedToC.Proofs.Rounding

/-!
# Decimals of doubles

Zeros at either end of the digits do not change the number, and a decimal without them is the only one
of its number. The shortest decimal of a double reads back as it: either it was found by reading back,
or it is the exact one.
-/
namespace AnnotatedToC

open NumberStyle (zeros)

namespace Decimal

/-- Digits without zeros at either end. -/
def Trimmed (digits : List Char) : Prop :=
  digits.head? ≠ some '0' ∧ digits.getLast? ≠ some '0'

theorem dropWhile_zeros_append (n : Nat) {digits : List Char} (h : digits.head? ≠ some '0') :
    (zeros n ++ digits).dropWhile (· == '0') = digits := by
  induction n with
  | zero =>
    cases digits with
    | nil => rfl
    | cons c cs =>
      have hc : (c == '0') = false := by simpa using h
      simp [zeros, hc]
  | succ n ih => simpa [zeros, List.replicate_succ] using ih

theorem stripZeros_append_zeros (n : Nat) {digits : List Char} (h : digits.getLast? ≠ some '0') :
    stripZeros (digits ++ zeros n) = digits := by
  have hreverse : (digits ++ zeros n).reverse = zeros n ++ digits.reverse := by simp [zeros]
  rw [stripZeros, hreverse, dropWhile_zeros_append, List.reverse_reverse]
  rwa [List.head?_reverse]

/-- Zeros around the digits of a decimal only move its point. -/
theorem ofDigits_zeros_append {digits : List Char} (h : Trimmed digits) (hne : digits ≠ [])
    (a b : Nat) (point : Int) : ofDigits (zeros a ++ digits ++ zeros b) point = ⟨digits, point - a⟩ := by
  have hhead : (digits ++ zeros b).head? ≠ some '0' := by
    rw [List.head?_append_of_ne_nil _ hne]
    exact h.1
  simp only [ofDigits, List.append_assoc, dropWhile_zeros_append a hhead,
    stripZeros_append_zeros b h.2, mk.injEq, true_and]
  simp only [zeros, List.length_append, List.length_replicate]
  omega

theorem exists_zeros_append (ds : List Char) :
    ∃ a, ds = zeros a ++ ds.dropWhile (· == '0') := by
  induction ds with
  | nil => exact ⟨0, rfl⟩
  | cons c cs ih =>
    by_cases hc : c = '0'
    · obtain ⟨a, ha⟩ := ih
      refine ⟨a + 1, ?_⟩
      rw [hc, List.dropWhile_cons_of_pos (by simp)]
      simpa [zeros, List.replicate_succ] using ha
    · exact ⟨0, by simp [zeros, hc]⟩

theorem head?_dropWhile_ne (ds : List Char) : (ds.dropWhile (· == '0')).head? ≠ some '0' := by
  intro h
  have hne : ds.dropWhile (· == '0') ≠ [] := by
    rintro hnil
    simp [hnil] at h
  have hnot := List.head_dropWhile_not (· == '0') hne
  rw [List.head?_eq_some_head hne, Option.some.injEq] at h
  simp [h] at hnot

/-- The digits of a decimal are those that it was made of, without zeros at either end. -/
theorem ofDigits_spec (ds : List Char) (point : Int) :
    Trimmed (ofDigits ds point).digits ∧
      ∃ a b : Nat, ds = zeros a ++ (ofDigits ds point).digits ++ zeros b ∧
        (ofDigits ds point).point = point - a := by
  obtain ⟨a, ha⟩ := exists_zeros_append ds
  set kept := ds.dropWhile (· == '0') with hkept
  obtain ⟨b, hb⟩ := exists_zeros_append kept.reverse
  have hdigits : (ofDigits ds point).digits = stripZeros kept := rfl
  have hsplit : kept = stripZeros kept ++ zeros b := by
    have hreverse := congrArg List.reverse hb
    simpa [stripZeros, zeros] using hreverse
  refine ⟨⟨?_, ?_⟩, a, b, ?_, ?_⟩
  · rw [hdigits]
    intro h
    apply head?_dropWhile_ne ds
    rw [← hkept, hsplit, List.head?_append, h]
    rfl
  · rw [hdigits, stripZeros, List.getLast?_reverse]
    exact head?_dropWhile_ne _
  · rw [hdigits, List.append_assoc, ← hsplit]
    exact ha
  · have hlength := congrArg List.length ha
    simp only [zeros, List.length_append, List.length_replicate] at hlength
    change point - ds.length + kept.length = point - a
    omega

/-- Digits keep their number when zeros are taken away from their ends. -/
theorem toRat_value_ofDigits (ds : List Char) (point : Int) :
    (ofDigits ds point).value.toRat =
      (Nat.ofDigitChars 10 ds 0 : ℚ) * (10 : ℚ) ^ (point - ds.length) := by
  obtain ⟨-, a, b, hds, hpoint⟩ := ofDigits_spec ds point
  have hnumber : Nat.ofDigitChars 10 ds 0 = 10 ^ b * (ofDigits ds point).coefficient := by
    conv_lhs => rw [hds]
    rw [zeros, zeros, Nat.ofDigitChars_append, Nat.ofDigitChars_append,
      Nat.ofDigitChars_replicate_zero, Nat.ofDigitChars_replicate_zero, Nat.mul_zero, coefficient]
  have hlength := congrArg List.length hds
  simp only [zeros, List.length_append, List.length_replicate] at hlength
  have hexponent : (ofDigits ds point).exponent = b + (point - ds.length) := by
    rw [exponent, hpoint]
    omega
  rw [value, Ratio.toRat_ofScientific _ (by norm_num), hnumber, hexponent, Nat.cast_ofNat,
    zpow_add₀ (by norm_num), zpow_natCast]
  push_cast
  ring

theorem toRat_value_ofScientific (n : Nat) (e : Int) :
    (ofScientific n e).value.toRat = n * (10 : ℚ) ^ e := by
  rw [ofScientific, toRat_value_ofDigits, Nat.ofDigitChars_ten_toDigits, add_sub_cancel_right]

theorem den_value_pos (d : Decimal) : 0 < d.value.den :=
  Ratio.den_scale_pos Nat.one_pos (by norm_num) _

theorem exact_of_ofNat {m k : Nat} (h : Double.exponent m = .ofNat k) :
    exact m = ofScientific (Double.significand m * 2 ^ k) 0 := by
  rw [exact, h]
  rfl

theorem exact_of_negSucc {m k : Nat} (h : Double.exponent m = .negSucc k) :
    exact m = ofScientific (Double.significand m * 5 ^ (k + 1)) (.negSucc k) := by
  rw [exact, h]
  rfl

/-- All digits of a double stand for its value. -/
theorem toRat_value_exact (m : Nat) :
    (exact m).value.toRat = Double.significand m * (2 : ℚ) ^ Double.exponent m := by
  cases he : Double.exponent m with
  | ofNat k =>
    rw [exact_of_ofNat he, toRat_value_ofScientific, zpow_zero, mul_one]
    simp
  | negSucc k =>
    have hten : (10 : ℚ) ^ (k + 1) = 5 ^ (k + 1) * 2 ^ (k + 1) := by
      rw [← mul_pow]
      norm_num
    rw [exact_of_negSucc he, toRat_value_ofScientific, zpow_negSucc, zpow_negSucc, hten]
    push_cast
    field_simp

/-- The digits of a positive integer start with no zero. -/
theorem head?_toDigits_ne {n : Nat} (hn : n ≠ 0) : (Nat.toDigits 10 n).head? ≠ some '0' := by
  induction n using Nat.strongRecOn with
  | ind n ih =>
    by_cases hlt : n < 10
    · rw [Nat.toDigits_of_lt_base hlt, List.head?_cons, ne_eq, Option.some.injEq]
      intro hzero
      have hdigit := Nat.toNat_digitChar_sub_48_of_lt_ten hlt
      rw [hzero] at hdigit
      exact hn hdigit.symm
    · rw [Nat.toDigits_of_base_le (by norm_num) (not_lt.mp hlt),
        List.head?_append_of_ne_nil _ Nat.toDigits_ne_nil]
      exact ih (n / 10) (by omega) (by omega)

/-- The point of a positive integer times a power of ten stands after all of its digits. -/
theorem point_ofScientific {n : Nat} (hn : n ≠ 0) (e : Int) :
    (ofScientific n e).point = e + (Nat.toDigits 10 n).length := by
  have hkept : (Nat.toDigits 10 n).dropWhile (· == '0') = Nat.toDigits 10 n :=
    dropWhile_zeros_append 0 (head?_toDigits_ne hn)
  simp only [ofScientific, ofDigits, hkept]
  omega

/-- Powers of five grow fast enough for the exact decimals of small numbers. -/
theorem ten_pow_le_five_pow {j : Nat} (hj : j ≤ 674) : 10 ^ j ≤ 5 ^ (j + 400) := calc
  10 ^ j = 5 ^ j * 2 ^ j := by rw [← Nat.mul_pow]
  _ ≤ 5 ^ j * 2 ^ 674 := Nat.mul_le_mul_left _ (Nat.pow_le_pow_right (by norm_num) hj)
  _ ≤ 5 ^ j * 5 ^ 400 := Nat.mul_le_mul_left _ (by decide +kernel)
  _ = 5 ^ (j + 400) := (Nat.pow_add 5 j 400).symm

theorem length_toDigits_le {n k : Nat} (hk : 0 < k) :
    (Nat.toDigits 10 n).length ≤ k ↔ n < 10 ^ k :=
  Nat.length_toDigits_le_iff (by norm_num) hk

/-- The exact decimal of a finite double is within the range where decimals are computed. -/
theorem point_exact_bounds {m : Nat} (hm : m ≠ 0) (hfinite : m < Double.infinity) :
    -400 ≤ (exact m).point ∧ (exact m).point ≤ 400 := by
  have hpos : 0 < Double.significand m := Nat.pos_of_ne_zero (Double.significand_ne_zero hm)
  have hsig := Double.significand_lt m
  have hexp : -1074 ≤ Double.exponent m ∧ Double.exponent m ≤ 971 := by
    rw [Double.exponent_eq]
    simp only [Double.infinity] at hfinite
    omega
  cases he : Double.exponent m with
  | ofNat k =>
    have hk : k ≤ 971 := by
      rw [he] at hexp
      exact Int.ofNat_le.mp hexp.2
    have hn : Double.significand m * 2 ^ k < 10 ^ 400 := calc
      Double.significand m * 2 ^ k < 2 ^ 53 * 2 ^ k := Nat.mul_lt_mul_of_pos_right hsig (by positivity)
      _ ≤ 2 ^ 53 * 2 ^ 971 := Nat.mul_le_mul_left _ (Nat.pow_le_pow_right (by norm_num) hk)
      _ < 10 ^ 400 := by decide +kernel
    have hlength := (length_toDigits_le (by norm_num)).mpr hn
    rw [exact_of_ofNat he, point_ofScientific (by positivity)]
    omega
  | negSucc k =>
    have hn : Double.significand m * 5 ^ (k + 1) < 10 ^ (k + 17) := calc
      Double.significand m * 5 ^ (k + 1) < 10 ^ 16 * 5 ^ (k + 1) :=
        Nat.mul_lt_mul_of_pos_right (by omega) (by positivity)
      _ ≤ 10 ^ 16 * 10 ^ (k + 1) := Nat.mul_le_mul_left _ (Nat.pow_le_pow_left (by norm_num) _)
      _ = 10 ^ (k + 17) := by rw [← Nat.pow_add]; congr 1; omega
    have hupper := (length_toDigits_le (by omega)).mpr hn
    have hlower : k + 1 ≤ (Nat.toDigits 10 (Double.significand m * 5 ^ (k + 1))).length + 400 := by
      by_contra hlt
      have hj : k - 399 ≤ 674 := by omega
      have hfew := (length_toDigits_le (n := Double.significand m * 5 ^ (k + 1))
        (k := k - 399) (by omega)).mp (by omega)
      have hmany := ten_pow_le_five_pow hj
      rw [show k - 399 + 400 = k + 1 by omega] at hmany
      have hle := Nat.le_mul_of_pos_left (5 ^ (k + 1)) hpos
      omega
    rw [exact_of_negSucc he, point_ofScientific (by positivity)]
    omega

/-- A decimal that stands for the value of a double reads back as it. -/
theorem nearestDecimal_exact {m : Nat} (hm : m ≠ 0) (hfinite : m < Double.infinity) :
    Double.nearestDecimal (exact m) = m := by
  obtain ⟨hlow, hhigh⟩ := point_exact_bounds hm hfinite
  have hcoefficient : (exact m).coefficient ≠ 0 := by
    intro hzero
    have hvalue := toRat_value_exact m
    have hsig : (Double.significand m : ℚ) ≠ 0 := by
      exact_mod_cast Double.significand_ne_zero hm
    rw [value, Ratio.toRat_ofScientific _ (by norm_num), hzero, Nat.cast_zero, zero_mul] at hvalue
    exact mul_ne_zero hsig (zpow_ne_zero _ two_ne_zero) hvalue.symm
  rw [Double.nearestDecimal, if_neg (by omega), if_neg (by omega)]
  exact Double.nearest_eq (den_value_pos _) hm (toRat_value_exact m)

/-- What is found on a grid reads back. -/
theorem onGrid?_eq_some {tie : Tie} {m : Nat} {v : Ratio} {e : Int} {d : Decimal}
    (h : onGrid? tie m v e = some d) :
    (∃ n, d = ofScientific n e) ∧ Double.nearestDecimal d = m := by
  rw [onGrid?] at h
  refine ⟨?_, by simpa [readsAs] using List.find?_some h⟩
  obtain ⟨n, -, hn⟩ := List.mem_map.mp (List.mem_of_find?_eq_some h)
  exact ⟨n, hn.symm⟩

/-- The shortest decimal of a finite double other than zero reads back as it. -/
theorem shortest_spec (tie : Tie) {m : Nat} (hm : m ≠ 0) (hfinite : m < Double.infinity) :
    (∃ n e, shortest tie m = ofScientific n e) ∧ Double.nearestDecimal (shortest tie m) = m := by
  rw [shortest]
  cases hfound : (List.range 17).findSome? fun n =>
      onGrid? tie m (Double.value m) ((Double.value m).pointPosition - (n + 1 : Nat)) with
  | none =>
    refine ⟨?_, nearestDecimal_exact hm hfinite⟩
    change ∃ n e, exact m = ofScientific n e
    cases he : Double.exponent m with
    | ofNat k => exact ⟨_, _, exact_of_ofNat he⟩
    | negSucc k => exact ⟨_, _, exact_of_negSucc he⟩
  | some d =>
    obtain ⟨n, -, hn⟩ := List.exists_of_findSome?_eq_some hfound
    obtain ⟨⟨k, hk⟩, hread⟩ := onGrid?_eq_some hn
    exact ⟨⟨k, _, hk⟩, hread⟩

end Decimal

end AnnotatedToC
