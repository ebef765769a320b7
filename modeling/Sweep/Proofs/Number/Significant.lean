import Sweep.Proofs.Number.ReadBack

/-!
# A given number of digits

The digits of a double that are rounded at a given place: there are as many as asked for, the first
is no zero unless the double is, and they are off by half a unit of the last one at most. All of it
follows from where the exact value lies on the grid of the last digit: the decimal exponent of the
value chooses the grid, so the value has the right number of places there, and rounding adds a place
only by reaching the next power of ten (`exists_significant`).
-/

set_option autoImplicit false

namespace Sweep

/-! ## Rounding -/

/-- Rounding goes to the whole number on the nearer side of the ratio. -/
theorem roundDiv_cases (n d : Nat) :
    (roundDiv n d = n / d ∧ 2 * (n % d) ≤ d) ∨ (roundDiv n d = n / d + 1 ∧ d ≤ 2 * (n % d)) := by
  rw [roundDiv]
  split
  · next h => exact .inl ⟨rfl, h.le⟩
  · next h =>
    split
    · next h' => exact .inr ⟨rfl, h'.le⟩
    · next h' =>
      split
      · exact .inl ⟨rfl, Nat.le_of_not_lt h'⟩
      · exact .inr ⟨rfl, Nat.le_of_not_lt h⟩

/-- **Rounding is off by half at most.** -/
theorem abs_roundDiv_sub_le (n : Nat) {d : Nat} (hd : 0 < d) :
    |(roundDiv n d : ℚ) - n / d| ≤ 1 / 2 := by
  have hden : (0 : ℚ) < d := by exact_mod_cast hd
  have hsplit : (n : ℚ) / d = (n / d : Nat) + (n % d : Nat) / d := by
    rw [div_eq_iff hden.ne', add_mul, div_mul_cancel₀ _ hden.ne']
    exact_mod_cast (Nat.div_add_mod' n d).symm
  have hlt : ((n % d : Nat) : ℚ) / d < 1 := by
    rw [div_lt_one hden]
    exact_mod_cast Nat.mod_lt n hd
  have hnonneg : (0 : ℚ) ≤ ((n % d : Nat) : ℚ) / d := div_nonneg (Nat.cast_nonneg _) hden.le
  rw [hsplit, abs_le]
  rcases roundDiv_cases n d with ⟨hr, hrest⟩ | ⟨hr, hrest⟩
  · have hhalf : ((n % d : Nat) : ℚ) / d ≤ 1 / 2 := by
      rw [div_le_div_iff₀ hden two_pos, one_mul, mul_comm]
      exact_mod_cast hrest
    rw [hr]
    constructor <;> linarith
  · have hhalf : (1 : ℚ) / 2 ≤ ((n % d : Nat) : ℚ) / d := by
      rw [div_le_div_iff₀ two_pos hden, one_mul, mul_comm]
      exact_mod_cast hrest
    rw [hr]
    push_cast
    constructor <;> linarith

/-- Rounding stays between whole numbers that the ratio lies between. -/
theorem roundDiv_between {n d low high : Nat} (hd : 0 < d) (hlow : low * d ≤ n)
    (hhigh : n < high * d) :
    low ≤ roundDiv n d ∧ roundDiv n d ≤ high := by
  have hle : low ≤ n / d := (Nat.le_div_iff_mul_le hd).2 hlow
  have hlt : n / d < high := (Nat.div_lt_iff_lt_mul hd).2 hhigh
  rcases roundDiv_cases n d with ⟨hr, -⟩ | ⟨hr, -⟩ <;> omega

namespace Double

/-! ## The grid of the last digit -/

/-- Where the exact value lies on a grid. -/
theorem onGrid_value (x : Double) (grid : Int) :
    ((x.onGrid grid).1 : ℚ) / (x.onGrid grid).2 = x.significand * 2 ^ x.scale * 10 ^ (-grid) := by
  have hpower := pow_div_pow (b := 10) (by norm_num) (-grid)
  rw [neg_neg] at hpower
  rw [onGrid, Nat.pow_eq, Nat.pow_eq, ← value_eq, ← hpower]
  push_cast
  rw [mul_div_mul_comm]

theorem onGrid_pos (x : Double) (grid : Int) : 0 < (x.onGrid grid).2 :=
  Nat.mul_pos (Nat.pos_of_ne_zero x.denominator_ne_zero) (Nat.pow_pos (by decide))

/-- On the grid that its exponent chooses, a double has as many places as asked for. -/
theorem onGrid_between {x : Double} (hx : x.isZero = false) {count : Nat} (hcount : 0 < count) :
    10 ^ (count - 1) * (x.onGrid (decimalExponent x.numerator x.denominator + 1 - count)).2 ≤
        (x.onGrid (decimalExponent x.numerator x.denominator + 1 - count)).1 ∧
      (x.onGrid (decimalExponent x.numerator x.denominator + 1 - count)).1 <
        10 ^ count * (x.onGrid (decimalExponent x.numerator x.denominator + 1 - count)).2 := by
  have hten : (0 : ℚ) < 10 := by norm_num
  have hexponent := decimalExponent_eq_log (numerator_ne_zero hx) x.denominator_ne_zero
  rw [value_eq] at hexponent
  have hlow := Int.zpow_log_le_self (b := 10) (by decide) (value_pos hx)
  have hhigh := Int.lt_zpow_succ_log_self (b := 10) (by decide) ((x.significand : ℚ) * 2 ^ x.scale)
  rw [← hexponent] at hlow hhigh
  push_cast at hlow hhigh
  have hvalue := x.onGrid_value (decimalExponent x.numerator x.denominator + 1 - count)
  have hden : (0 : ℚ) < (x.onGrid (decimalExponent x.numerator x.denominator + 1 - count)).2 := by
    exact_mod_cast x.onGrid_pos _
  generalize decimalExponent x.numerator x.denominator = e at *
  have hstep :
      ∀ k : Int, (10 : ℚ) ^ k * 10 ^ (-(e + 1 - count)) = 10 ^ (k - (e + 1 - count)) := fun k => by
    rw [← zpow_add₀ hten.ne', ← sub_eq_add_neg]
  have hfront :
      (10 : ℚ) ^ (count - 1) ≤ (x.onGrid (e + 1 - count)).1 / (x.onGrid (e + 1 - count)).2 := by
    calc (10 : ℚ) ^ (count - 1) = 10 ^ e * 10 ^ (-(e + 1 - count)) := by
          rw [hstep, ← zpow_natCast]
          congr 1
          omega
      _ ≤ _ := by
          rw [hvalue]
          exact mul_le_mul_of_nonneg_right hlow (zpow_pos hten _).le
  have hback : ((x.onGrid (e + 1 - count)).1 : ℚ) / (x.onGrid (e + 1 - count)).2 < 10 ^ count := by
    calc
      ((x.onGrid (e + 1 - count)).1 : ℚ) / (x.onGrid (e + 1 - count)).2
          < 10 ^ (e + 1) * 10 ^ (-(e + 1 - count)) := by
          rw [hvalue]
          exact mul_lt_mul_of_pos_right hhigh (zpow_pos hten _)
      _ = 10 ^ count := by
          rw [hstep, ← zpow_natCast]
          congr 1
          omega
  rw [le_div_iff₀ hden] at hfront
  rw [div_lt_iff₀ hden] at hback
  constructor
  · exact_mod_cast hfront
  · exact_mod_cast hback

/-! ## The digits -/

/-- An error in units of the last digit, as an error of the value. -/
theorem abs_sub_le_of_grid {rounded value : ℚ} {grid : Int}
    (h : |rounded - value * 10 ^ (-grid)| ≤ 1 / 2) :
    |rounded * 10 ^ grid - value| ≤ 10 ^ grid / 2 := by
  have hten : (0 : ℚ) < 10 := by norm_num
  have hunit : (0 : ℚ) < 10 ^ grid := zpow_pos hten grid
  have hcancel : (10 : ℚ) ^ (-grid) * 10 ^ grid = 1 := by
    rw [← zpow_add₀ hten.ne', neg_add_cancel, zpow_zero]
  calc |rounded * 10 ^ grid - value| = |(rounded - value * 10 ^ (-grid)) * 10 ^ grid| := by
        rw [sub_mul, mul_assoc value, hcancel, mul_one]
    _ = |rounded - value * 10 ^ (-grid)| * 10 ^ grid := by rw [abs_mul, abs_of_pos hunit]
    _ ≤ 1 / 2 * 10 ^ grid := mul_le_mul_of_nonneg_right h hunit.le
    _ = 10 ^ grid / 2 := by ring

/-- **The first digits of a double**: a coefficient with as many places as asked for, off by half a
unit at most. -/
theorem exists_significant {x : Double} (hx : x.isZero = false) {count : Nat} (hcount : 0 < count) :
    ∃ coefficient exponent, x.significant count = ⟨Nat.toDigits 10 coefficient, exponent⟩ ∧
      10 ^ (count - 1) ≤ coefficient ∧ coefficient < 10 ^ count ∧
      |(coefficient : ℚ) * 10 ^ (exponent + 1 - count) - x.significand * 2 ^ x.scale| ≤
        10 ^ (exponent + 1 - count) / 2 := by
  have hten : (0 : ℚ) < 10 := by norm_num
  obtain ⟨hlow, hhigh⟩ := onGrid_between hx hcount
  have hpos := x.onGrid_pos (decimalExponent x.numerator x.denominator + 1 - count)
  have hvalue := x.onGrid_value (decimalExponent x.numerator x.denominator + 1 - count)
  rw [significant, if_neg (by rw [hx]; exact Bool.false_ne_true)]
  simp only [Nat.pow_eq]
  generalize decimalExponent x.numerator x.denominator = e at *
  obtain ⟨hle, hge⟩ := roundDiv_between hpos hlow hhigh
  have herror := abs_roundDiv_sub_le (x.onGrid (e + 1 - count)).1 hpos
  rw [hvalue] at herror
  have hoff := abs_sub_le_of_grid herror
  generalize roundDiv (x.onGrid (e + 1 - count)).1 (x.onGrid (e + 1 - count)).2 = rounded at *
  split
  · next hcarry =>
    -- the next power of ten: one place more, and the last one falls away
    have hcount' : count = count - 1 + 1 := by omega
    have hsame : ((10 ^ (count - 1) : Nat) : ℚ) * 10 ^ (e + 1 + 1 - (count : Int)) =
        rounded * 10 ^ (e + 1 - (count : Int)) := by
      rw [hcarry]
      push_cast
      rw [← zpow_natCast, ← zpow_natCast, ← zpow_add₀ hten.ne', ← zpow_add₀ hten.ne']
      congr 1
      omega
    have hwider : (10 : ℚ) ^ (e + 1 - (count : Int)) ≤ 10 ^ (e + 1 + 1 - (count : Int)) :=
      zpow_le_zpow_right₀ (by norm_num) (by omega)
    refine ⟨10 ^ (count - 1), e + 1, rfl, le_rfl, Nat.pow_lt_pow_right (by decide) (by omega), ?_⟩
    rw [hsame]
    linarith
  · next hcarry => exact ⟨rounded, e, rfl, hle, Nat.lt_of_le_of_ne hge hcarry, hoff⟩

end Double

end Sweep
