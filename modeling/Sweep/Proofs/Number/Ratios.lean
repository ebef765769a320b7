import Mathlib.Algebra.Order.Field.Power
import Mathlib.Data.Int.Log
import Mathlib.Data.Rat.Floor
import Mathlib.Tactic.NormNum
import Mathlib.Tactic.Ring
import Sweep.Number.Double

/-!
# A ratio and its value

Numbers are read and written as ratios of naturals, and a ratio can be written in many ways.
Everything that is asked about one depends on its value alone: whether it reaches a power, its
exponents, its nearest whole number, and so the double next to it (`ofRatio?_congr`). The same holds
of a coefficient with a power of ten (`ofDecimal?_congr`), which is why zeros at the end of the
digits of a number can be dropped or added.

The double next to the exact value of a double is that double (`ofRatio?_self`).
-/

set_option autoImplicit false

namespace Sweep

/-! ## Powers -/

theorem zpow_mul_pow_toNat {b : ℚ} (hb : b ≠ 0) (e : Int) :
    b ^ e * b ^ (-e).toNat = b ^ e.toNat := by
  rw [← zpow_natCast b (-e).toNat, ← zpow_natCast b e.toNat, ← zpow_add₀ hb]
  congr 1
  omega

/-- A power with an exponent of either sign, as the ratio that stands for it. -/
theorem pow_div_pow {b : ℚ} (hb : b ≠ 0) (e : Int) : b ^ e.toNat / b ^ (-e).toNat = b ^ e := by
  rw [div_eq_iff (pow_ne_zero _ hb), zpow_mul_pow_toNat hb]

/-- A logarithm is found between two powers. -/
theorem log_eq_of_between {b : Nat} (hb : 1 < b) {r : ℚ} {e : Int} (hlow : (b : ℚ) ^ e ≤ r)
    (hhigh : r < (b : ℚ) ^ (e + 1)) : Int.log b r = e := by
  have hr : 0 < r := lt_of_lt_of_le (zpow_pos (by exact_mod_cast Nat.zero_lt_of_lt hb) e) hlow
  have hle := (Int.zpow_le_iff_le_log hb hr).1 hlow
  have hlt := (Int.lt_zpow_iff_log_lt hb hr).1 hhigh
  omega

theorem log_mul_zpow {b : Nat} (hb : 1 < b) {r : ℚ} (hr : 0 < r) (e : Int) :
    Int.log b (r * (b : ℚ) ^ e) = Int.log b r + e := by
  have hpos : (0 : ℚ) < b := by exact_mod_cast Nat.zero_lt_of_lt hb
  refine log_eq_of_between hb ?_ ?_
  · rw [zpow_add₀ hpos.ne']
    exact mul_le_mul_of_nonneg_right (Int.zpow_log_le_self hb hr) (zpow_pos hpos e).le
  · rw [add_right_comm, zpow_add₀ hpos.ne']
    exact mul_lt_mul_of_pos_right (Int.lt_zpow_succ_log_self hb r) (zpow_pos hpos e)

/-! ## Exponents -/

theorem reaches_iff {base : Nat} (hb : 0 < base) (e : Int) (n : Nat) {d : Nat} (hd : 0 < d) :
    reaches base e n d = true ↔ (base : ℚ) ^ e ≤ (n : ℚ) / d := by
  have hbase : (0 : ℚ) < base := by exact_mod_cast hb
  have hden : (0 : ℚ) < d := by exact_mod_cast hd
  have hsplit : (d : ℚ) * (base ^ e * base ^ (-e).toNat) = base ^ e * d * base ^ (-e).toNat := by
    ring
  rw [reaches, decide_eq_true_eq, Nat.pow_eq, Nat.pow_eq, le_div_iff₀ hden,
    ← Nat.cast_le (α := ℚ), Nat.cast_mul, Nat.cast_mul, Nat.cast_pow, Nat.cast_pow,
    ← zpow_mul_pow_toNat hbase.ne' e, hsplit]
  exact mul_le_mul_iff_of_pos_right (pow_pos hbase (-e).toNat)

/-- The logarithms of two numbers leave two candidates for that of their ratio; the larger one is it
if the ratio reaches it. -/
theorem exponent_eq_log {b : Nat} (hb : 1 < b) {n d : Nat} (hn : n ≠ 0) (hd : d ≠ 0) {guess : Int}
    (hguess : guess = Int.log b (n : ℚ) - Int.log b (d : ℚ)) :
    (if reaches b guess n d then guess else guess - 1) = Int.log b ((n : ℚ) / d) := by
  have hbase : (0 : ℚ) < b := by exact_mod_cast Nat.zero_lt_of_lt hb
  have hnum : (0 : ℚ) < n := by exact_mod_cast Nat.pos_of_ne_zero hn
  have hden : (0 : ℚ) < d := by exact_mod_cast Nat.pos_of_ne_zero hd
  have hlow : (b : ℚ) ^ (guess - 1) ≤ (n : ℚ) / d := by
    rw [le_div_iff₀ hden]
    calc (b : ℚ) ^ (guess - 1) * d ≤ b ^ (guess - 1) * b ^ (Int.log b (d : ℚ) + 1) :=
          mul_le_mul_of_nonneg_left (Int.lt_zpow_succ_log_self hb _).le (zpow_pos hbase _).le
      _ = b ^ Int.log b (n : ℚ) := by
          rw [← zpow_add₀ hbase.ne']
          congr 1
          omega
      _ ≤ n := Int.zpow_log_le_self hb hnum
  have hhigh : (n : ℚ) / d < (b : ℚ) ^ (guess + 1) := by
    rw [div_lt_iff₀ hden]
    calc (n : ℚ) < b ^ (Int.log b (n : ℚ) + 1) := Int.lt_zpow_succ_log_self hb _
      _ = b ^ (guess + 1) * b ^ Int.log b (d : ℚ) := by
          rw [← zpow_add₀ hbase.ne']
          congr 1
          omega
      _ ≤ b ^ (guess + 1) * d :=
        mul_le_mul_of_nonneg_left (Int.zpow_log_le_self hb hden) (zpow_pos hbase _).le
  split
  · next hr =>
    exact (log_eq_of_between hb
      ((reaches_iff (Nat.zero_lt_of_lt hb) _ n (Nat.pos_of_ne_zero hd)).1 hr) hhigh).symm
  · next hr =>
    have hlt := lt_of_not_ge fun hle =>
      hr ((reaches_iff (Nat.zero_lt_of_lt hb) _ n (Nat.pos_of_ne_zero hd)).2 hle)
    exact (log_eq_of_between hb hlow (by rwa [sub_add_cancel])).symm

/-- The binary exponent of a ratio is the logarithm of its value. -/
theorem binaryExponent_eq_log {n d : Nat} (hn : n ≠ 0) (hd : d ≠ 0) :
    binaryExponent n d = Int.log 2 ((n : ℚ) / d) := by
  refine exponent_eq_log one_lt_two hn hd ?_
  rw [Int.log_natCast, Int.log_natCast, Nat.log2_eq_log_two, Nat.log2_eq_log_two]

/-- The number of decimal digits is told by the logarithm. -/
theorem length_digits_eq_log {n : Nat} (hn : n ≠ 0) :
    ((Nat.toDigits 10 n).length : Int) = Int.log 10 (n : ℚ) + 1 := by
  have hlength : 0 < (Nat.toDigits 10 n).length := Nat.length_toDigits_pos
  have hhigh : n < 10 ^ (Nat.toDigits 10 n).length :=
    (Nat.length_toDigits_le_iff (by decide) hlength).1 le_rfl
  have hlow : 10 ^ ((Nat.toDigits 10 n).length - 1) ≤ n := by
    rcases Nat.eq_or_lt_of_le hlength with h | h
    · rw [← h]
      exact Nat.pos_of_ne_zero hn
    · have hpred : 0 < (Nat.toDigits 10 n).length - 1 := by omega
      refine Nat.le_of_not_lt fun hlt => ?_
      have hle := (Nat.length_toDigits_le_iff (by decide) hpred).2 hlt
      omega
  have hlog : Int.log 10 (n : ℚ) = ((Nat.toDigits 10 n).length : Int) - 1 := by
    refine log_eq_of_between (by decide) ?_ ?_
    · rw [show ((Nat.toDigits 10 n).length : Int) - 1 =
        (((Nat.toDigits 10 n).length - 1 : Nat) : Int) by omega, zpow_natCast]
      exact_mod_cast hlow
    · rw [sub_add_cancel, zpow_natCast]
      exact_mod_cast hhigh
  omega

/-- So is the decimal exponent. -/
theorem decimalExponent_eq_log {n d : Nat} (hn : n ≠ 0) (hd : d ≠ 0) :
    decimalExponent n d = Int.log 10 ((n : ℚ) / d) := by
  refine exponent_eq_log (by decide) hn hd ?_
  rw [length_digits_eq_log hn, length_digits_eq_log hd, add_sub_add_right_eq_sub]

/-! ## The nearest whole number -/

theorem roundDiv_mul_left {m : Nat} (hm : 0 < m) (n d : Nat) :
    roundDiv (m * n) (m * d) = roundDiv n d := by
  have hlt : ∀ a b : Nat, m * a < m * b ↔ a < b := fun a b => Nat.mul_lt_mul_left hm
  have htwo : 2 * (m * (n % d)) = m * (2 * (n % d)) := Nat.mul_left_comm 2 m _
  rw [roundDiv, roundDiv]
  simp only [Nat.mul_div_mul_left _ _ hm, Nat.mul_mod_mul_left, htwo, hlt]

theorem roundDiv_congr {n d n' d' : Nat} (hd : 0 < d) (hd' : 0 < d') (h : n * d' = n' * d) :
    roundDiv n d = roundDiv n' d' := by
  calc roundDiv n d = roundDiv (d' * n) (d' * d) := (roundDiv_mul_left hd' n d).symm
    _ = roundDiv (d * n') (d * d') := by
      rw [Nat.mul_comm d' n, h, Nat.mul_comm n' d, Nat.mul_comm d' d]
    _ = roundDiv n' d' := roundDiv_mul_left hd n' d'

theorem roundDiv_one (n : Nat) : roundDiv n 1 = n := by
  rw [roundDiv]
  simp [Nat.mod_one]

/-! ## The nearest double -/

namespace Double

/-- **The double next to a ratio depends on its value alone.** -/
theorem ofRatio?_congr {negative : Bool} {n d n' d' : Nat} (hd : d ≠ 0) (hd' : d' ≠ 0)
    (h : (n : ℚ) / d = n' / d') :
    ofRatio? negative n d = ofRatio? negative n' d' := by
  have hden : (d : ℚ) ≠ 0 := by exact_mod_cast hd
  have hden' : (d' : ℚ) ≠ 0 := by exact_mod_cast hd'
  have hcross : n * d' = n' * d := by
    rw [div_eq_div_iff hden hden'] at h
    exact_mod_cast h
  have hzero : n = 0 ↔ n' = 0 := by
    constructor
    · rintro rfl
      rw [Nat.zero_mul] at hcross
      exact (Nat.mul_eq_zero.1 hcross.symm).resolve_right hd
    · rintro rfl
      rw [Nat.zero_mul] at hcross
      exact (Nat.mul_eq_zero.1 hcross).resolve_right hd'
  rw [ofRatio?, ofRatio?]
  by_cases hn : n = 0
  · rw [if_pos hn, if_pos (hzero.1 hn)]
  · have hn' : n' ≠ 0 := fun h' => hn (hzero.2 h')
    have hscale : scaleOf n d = scaleOf n' d' := by
      rw [scaleOf, scaleOf, binaryExponent_eq_log hn hd, binaryExponent_eq_log hn' hd', h]
    have hpow : ∀ k, 0 < Nat.pow 2 k := fun k => Nat.pow_pos two_pos
    rw [if_neg hn, if_neg hn', hscale]
    simp only
    rw [roundDiv_congr (Nat.mul_pos (Nat.pos_of_ne_zero hd) (hpow _))
      (Nat.mul_pos (Nat.pos_of_ne_zero hd') (hpow _))]
    calc n * Nat.pow 2 (-scaleOf n' d').toNat * (d' * Nat.pow 2 (scaleOf n' d').toNat)
        = n * d' * (Nat.pow 2 (-scaleOf n' d').toNat * Nat.pow 2 (scaleOf n' d').toNat) := by ring
      _ = n' * Nat.pow 2 (-scaleOf n' d').toNat * (d * Nat.pow 2 (scaleOf n' d').toNat) := by
        rw [hcross]
        ring

theorem decimal_ratio (c : Nat) (e : Int) :
    ((c * Nat.pow 10 e.toNat : Nat) : ℚ) / (Nat.pow 10 (-e).toNat : Nat) = c * 10 ^ e := by
  rw [Nat.pow_eq, Nat.pow_eq, Nat.cast_mul, Nat.cast_pow, Nat.cast_pow, mul_div_assoc]
  push_cast
  rw [pow_div_pow (by norm_num)]

/-- The place of the first digit. -/
theorem top_eq_log {c : Nat} (hc : c ≠ 0) (e : Int) :
    ((Nat.toDigits 10 c).length : Int) + e = Int.log 10 ((c : ℚ) * 10 ^ e) + 1 := by
  have hpos : (0 : ℚ) < c := by exact_mod_cast Nat.pos_of_ne_zero hc
  have hlog := log_mul_zpow (b := 10) (by decide) hpos e
  push_cast at hlog
  rw [hlog, length_digits_eq_log hc]
  ring

/-- **The double next to a decimal number depends on its value alone.** -/
theorem ofDecimal?_congr {negative : Bool} {c c' : Nat} {e e' : Int}
    (h : (c : ℚ) * 10 ^ e = c' * 10 ^ e') :
    ofDecimal? negative c e = ofDecimal? negative c' e' := by
  have hten : ∀ k : Int, (10 : ℚ) ^ k ≠ 0 := fun k => zpow_ne_zero k (by norm_num)
  have hzero : c = 0 ↔ c' = 0 := by
    rw [← Nat.cast_eq_zero (R := ℚ), ← Nat.cast_eq_zero (R := ℚ) (n := c')]
    constructor
    · intro hc
      rw [hc, zero_mul] at h
      exact (mul_eq_zero.1 h.symm).resolve_right (hten e')
    · intro hc
      rw [hc, zero_mul] at h
      exact (mul_eq_zero.1 h).resolve_right (hten e)
  rw [ofDecimal?, ofDecimal?]
  by_cases hc : c = 0
  · rw [if_pos hc, if_pos (hzero.1 hc)]
  · have hc' : c' ≠ 0 := fun h' => hc (hzero.2 h')
    have hpow : ∀ k, Nat.pow 10 k ≠ 0 := fun k => (Nat.pow_pos (by decide : 0 < 10)).ne'
    have hratio := (decimal_ratio c e).trans (h.trans (decimal_ratio c' e').symm)
    rw [if_neg hc, if_neg hc']
    simp only
    rw [top_eq_log hc, top_eq_log hc', h, ofRatio?_congr (hpow _) (hpow _) hratio]

/-! ## Exact values -/

theorem significand_lt (x : Double) : x.significand < 2 ^ 53 := by
  have hf := x.fraction.isLt
  rw [significand]
  split
  · exact Nat.lt_trans hf (by decide)
  · omega

theorem scale_bounds (x : Double) : -1074 ≤ x.scale ∧ x.scale ≤ 971 := by
  have he := x.exponent.isLt
  rw [scale]
  split
  · exact ⟨le_rfl, by decide⟩
  · omega

/-- The exact value of the magnitude of a double. -/
theorem value_eq (x : Double) :
    (x.numerator : ℚ) / x.denominator = x.significand * 2 ^ x.scale := by
  rw [numerator, denominator, Nat.pow_eq, Nat.pow_eq, Nat.cast_mul, Nat.cast_pow, Nat.cast_pow,
    mul_div_assoc]
  push_cast
  rw [pow_div_pow two_ne_zero]

theorem denominator_ne_zero (x : Double) :
    x.denominator ≠ 0 := (Nat.pow_pos (by decide : 0 < 2)).ne'

theorem numerator_ne_zero {x : Double} (hx : x.isZero = false) : x.numerator ≠ 0 := by
  rw [isZero, beq_eq_false_iff_ne] at hx
  exact Nat.mul_ne_zero hx (Nat.pow_pos (by decide : 0 < 2)).ne'

theorem scaleOf_self {x : Double} (hx : x.isZero = false) :
    scaleOf x.numerator x.denominator = x.scale := by
  have hne : x.significand ≠ 0 := by rwa [isZero, beq_eq_false_iff_ne] at hx
  have hpos : (0 : ℚ) < x.significand := by exact_mod_cast Nat.pos_of_ne_zero hne
  have hlog := log_mul_zpow one_lt_two hpos x.scale
  push_cast at hlog
  rw [scaleOf, binaryExponent_eq_log (numerator_ne_zero hx) x.denominator_ne_zero, value_eq, hlog]
  by_cases he : x.exponent.val = 0
  · -- below the normal range the significand has fewer places than there are
    have hsmall : x.significand < 2 ^ 52 := by
      rw [significand, if_pos he]
      exact x.fraction.isLt
    have hlt : Int.log 2 (x.significand : ℚ) < 52 := by
      refine (Int.lt_zpow_iff_log_lt one_lt_two hpos).1 ?_
      exact_mod_cast hsmall
    have hscale : x.scale = -1074 := by rw [scale, if_pos he]
    omega
  · have hbig : 2 ^ 52 ≤ x.significand := by
      rw [significand, if_neg he]
      omega
    have hlog' : Int.log 2 (x.significand : ℚ) = 52 := by
      refine log_eq_of_between one_lt_two ?_ ?_
      · exact_mod_cast hbig
      · exact_mod_cast x.significand_lt
    have hscale := x.scale_bounds
    omega

/-- **The double next to the exact value of a double is that double.** -/
theorem ofRatio?_self {x : Double} (hx : x.isZero = false) :
    ofRatio? x.negative x.numerator x.denominator = some x := by
  have hpow : 0 < Nat.pow 2 (-x.scale).toNat * Nat.pow 2 x.scale.toNat :=
    Nat.mul_pos (Nat.pow_pos two_pos) (Nat.pow_pos two_pos)
  have hround : roundDiv (x.numerator * Nat.pow 2 (-x.scale).toNat)
      (x.denominator * Nat.pow 2 x.scale.toNat) = x.significand := by
    rw [← roundDiv_one x.significand]
    refine roundDiv_congr hpow Nat.one_pos ?_
    rw [numerator, denominator]
    ring
  have hrank : (x.scale + 1074).toNat * 0x10000000000000 + x.significand =
      x.exponent.val * 0x10000000000000 + x.fraction.val := by
    rw [scale, significand]
    split
    · next he => rw [he]; rfl
    · omega
  have hfraction := x.fraction.isLt
  have hexponent := x.exponent.isLt
  have hdiv : (x.exponent.val * 0x10000000000000 + x.fraction.val) / 0x10000000000000 =
    x.exponent.val := by omega
  have hmod : (x.exponent.val * 0x10000000000000 + x.fraction.val) % 0x10000000000000 =
    x.fraction.val := by omega
  rw [ofRatio?, if_neg (numerator_ne_zero hx), scaleOf_self hx]
  simp only
  rw [hround, hrank, ofRank?, dif_pos (by rw [hdiv]; exact hexponent)]
  simp only [hdiv, hmod]

end Double

end Sweep
