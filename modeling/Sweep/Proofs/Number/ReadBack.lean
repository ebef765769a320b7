import Sweep.Proofs.Number.Ratios
import Sweep.Proofs.Number.Shortest

/-!
# Doubles, read back from their digits

The shortest digits of a double are chosen among those that read back as the double, and where none
are found among the first seventeen grids the exact value is given, which reads back too. Since
reading depends on the value of digits only, and neither trimming zeros nor placing the point
changes it, **the digits of a double at their places read back as the double**
(`ofDecimal?_plain_shortest`), whatever double it is.
-/

set_option autoImplicit false

namespace Sweep.Double

theorem eq_zero_of_isZero {x : Double} (hx : x.isZero = true) : x = zero x.negative := by
  rw [isZero, beq_iff_eq, significand] at hx
  split at hx
  · next he =>
    obtain ⟨negative, exponent, fraction⟩ := x
    rw [zero, mk.injEq]
    exact ⟨rfl, Fin.ext he, Fin.ext hx⟩
  · omega

theorem value_pos {x : Double} (hx : x.isZero = false) : (0 : ℚ) < x.significand * 2 ^ x.scale := by
  have hne : x.significand ≠ 0 := by rwa [isZero, beq_eq_false_iff_ne] at hx
  exact mul_pos (by exact_mod_cast Nat.pos_of_ne_zero hne) (zpow_pos two_pos _)

/-- The first digit of a double stands at a place where digits are read in full. -/
theorem log_value_bounds {x : Double} (hx : x.isZero = false) :
    -324 ≤ Int.log 10 ((x.significand : ℚ) * 2 ^ x.scale) ∧
      Int.log 10 ((x.significand : ℚ) * 2 ^ x.scale) < 309 := by
  have hne : x.significand ≠ 0 := by rwa [isZero, beq_eq_false_iff_ne] at hx
  have hone : (1 : ℚ) ≤ x.significand := by exact_mod_cast Nat.one_le_iff_ne_zero.2 hne
  have hlt : (x.significand : ℚ) < 2 ^ 53 := by exact_mod_cast x.significand_lt
  obtain ⟨hlow, hhigh⟩ := x.scale_bounds
  have hsmallest : (2 : ℚ) ^ 1074 ≤ 10 ^ 324 := by
    have hn : 2 ^ 1074 ≤ 10 ^ 324 := by decide +kernel
    exact_mod_cast hn
  have hlargest : (2 : ℚ) ^ 53 * 2 ^ 971 ≤ 10 ^ 309 := by
    have hn : 2 ^ 53 * 2 ^ 971 ≤ 10 ^ 309 := by decide +kernel
    exact_mod_cast hn
  constructor
  · refine (Int.zpow_le_iff_le_log (b := 10) (by decide) (value_pos hx)).1 ?_
    calc ((10 : ℕ) : ℚ) ^ (-324 : Int) ≤ 1 * 2 ^ (-1074 : Int) := by
          rw [one_mul, zpow_neg, zpow_neg]
          exact inv_anti₀ (zpow_pos two_pos _) hsmallest
      _ ≤ x.significand * 2 ^ x.scale :=
        mul_le_mul hone (zpow_le_zpow_right₀ one_le_two hlow) (zpow_pos two_pos _).le (by linarith)
  · refine (Int.lt_zpow_iff_log_lt (b := 10) (by decide) (value_pos hx)).1 ?_
    calc (x.significand : ℚ) * 2 ^ x.scale < 2 ^ 53 * 2 ^ (971 : Int) :=
        mul_lt_mul hlt (zpow_le_zpow_right₀ one_le_two hhigh) (zpow_pos two_pos _) (by norm_num)
      _ ≤ ((10 : ℕ) : ℚ) ^ (309 : Int) := hlargest

/-- **Digits of the exact value of a double read back.** -/
theorem readsBack_of_value {x : Double} (hx : x.isZero = false) {c : Nat} {e : Int}
    (h : (c : ℚ) * 10 ^ e = x.significand * 2 ^ x.scale) : x.readsBack c e = true := by
  have hc : c ≠ 0 := by
    rintro rfl
    have hpos := value_pos hx
    rw [← h] at hpos
    simp at hpos
  obtain ⟨hlow, hhigh⟩ := log_value_bounds hx
  have htop := top_eq_log hc e
  rw [h] at htop
  have hratio : ofRatio? x.negative (c * Nat.pow 10 e.toNat) (Nat.pow 10 (-e).toNat) = some x := by
    rw [← ofRatio?_self hx]
    refine ofRatio?_congr (Nat.pow_pos (by decide : 0 < 10)).ne' x.denominator_ne_zero ?_
    rw [decimal_ratio, value_eq, h]
  rw [readsBack, decide_eq_true_eq, ofDecimal?, if_neg hc]
  simp only
  rw [if_neg (by omega), if_neg (by omega), hratio]

/-- The exact value is a coefficient that reads back. -/
theorem readsBack_exact {x : Double} (hx : x.isZero = false) :
    x.readsBack (x.numerator * Nat.pow 5 (-x.scale).toNat) (-(-x.scale).toNat) = true := by
  refine readsBack_of_value hx ?_
  have hfive : (5 : ℚ) ≠ 0 := by norm_num
  rw [← value_eq, denominator, zpow_neg, zpow_natCast, Nat.pow_eq, Nat.pow_eq]
  push_cast
  rw [show (10 : ℚ) = 5 * 2 by norm_num, mul_pow, mul_inv, mul_mul_mul_comm]
  field_simp

/-- **The shortest digits of a double are those of a coefficient that reads back.** -/
theorem exists_readsBack_shortest {x : Double} (hx : x.isZero = false) (tie : Tie) :
    ∃ c e, x.shortest tie = .ofCoefficient c e ∧ x.readsBack c e = true := by
  rw [shortest, if_neg (by rw [hx]; exact Bool.false_ne_true)]
  cases hc : coarsest? tie x 17 (decimalExponent x.numerator x.denominator) with
  | some s => exact exists_of_coarsest? hc
  | none => exact ⟨_, _, rfl, readsBack_exact hx⟩

/-- **Whatever denotes the number that the shortest digits of a double denote reads back as the
double.** -/
theorem ofDecimal?_of_value_shortest {x : Double} {tie : Tie} {c : Nat} {e : Int}
    (h : (c : ℚ) * 10 ^ e = (x.shortest tie).value) : ofDecimal? x.negative c e = some x := by
  cases hx : x.isZero with
  | true =>
    have hzero : ofDecimal? x.negative 0 0 = some x := by
      rw [ofDecimal?, if_pos rfl, ← eq_zero_of_isZero hx]
    rw [← hzero]
    refine ofDecimal?_congr ?_
    rw [h, shortest, if_pos hx]
    simp [Scientific.value, Scientific.zero, Text.decimalNumber, Text.decimalValue?]
  | false =>
    obtain ⟨coefficient, grid, hs, hread⟩ := exists_readsBack_shortest hx tie
    rw [readsBack, decide_eq_true_eq] at hread
    rw [← hread]
    refine ofDecimal?_congr ?_
    rw [h, hs, Scientific.value_ofCoefficient]

/-- **The shortest digits of a double at their places read back as the double.** -/
theorem ofDecimal?_plain_shortest (x : Double) (tie : Tie) :
    ∃ front back, (x.shortest tie).plain = front ++ '.' :: back ∧ FrontDigits front ∧ back ≠ [] ∧
      (∀ c ∈ back, Text.isAsciiDigit c = true) ∧
      ofDecimal? x.negative (Text.decimalNumber (front ++ back)) (0 - back.length) = some x := by
  obtain ⟨front, back, hp, hf, hne, hb, hvalue⟩ := x.plain_shortest tie
  refine ⟨front, back, hp, hf, hne, hb, ?_⟩
  rw [zero_sub]
  exact ofDecimal?_of_value_shortest hvalue

end Sweep.Double
