import Mathlib.Algebra.Field.Rat
import Mathlib.Tactic.NormNum
import Sweep.Number.Layout
import Sweep.Proofs.Text.Decimal

/-!
# The digits of a double at their places

The shortest digits of a double are decimal digits, and the first of them is no zero unless the
double is zero, since a coefficient of zero reads back to zero only. Laid out at their places they
are a run of digits without a zero too many in front, a point, and another run of digits. Neither
choosing zeros to drop nor placing the point changes the value that the digits denote
(`Scientific.value`).
-/

set_option autoImplicit false

namespace Sweep

/-- A run of digits in front of a point: no zero stands in front of another digit. -/
structure FrontDigits (cs : List Char) : Prop where
  digits : ∀ c ∈ cs, Text.isAsciiDigit c = true
  head : cs = ['0'] ∨ ∃ c rest, cs = c :: rest ∧ c ≠ '0'

theorem digits_zeros (count : Nat) :
    ∀ c ∈ List.replicate count '0', Text.isAsciiDigit c = true := by
  intro c hc
  rw [List.eq_of_mem_replicate hc]
  rfl

theorem FrontDigits.zero : FrontDigits ['0'] := ⟨digits_zeros 1, .inl rfl⟩

theorem FrontDigits.ofNat (n : Nat) : FrontDigits (Text.digits 10 n) := by
  refine ⟨(Text.digits_spec n).1, ?_⟩
  by_cases hn : n = 0
  · rw [hn]
    exact .inl (Text.digits_zero 10)
  · exact .inr (Text.head_digits (show 1 < 10 by decide) hn)

theorem FrontDigits.exists_cons {front : List Char} (h : FrontDigits front) :
    ∃ c tail, front = c :: tail ∧ Text.isAsciiDigit c = true := by
  rcases h.head with he | ⟨c, tail, he, -⟩
  · exact ⟨'0', [], he, by decide⟩
  · exact ⟨c, tail, he, h.digits c (he ▸ List.mem_cons_self)⟩

namespace Scientific

theorem trimZeros_append (cs : List Char) :
    ∃ count, cs = trimZeros cs ++ List.replicate count '0' := by
  cases cs with
  | nil => exact ⟨0, rfl⟩
  | cons first rest =>
    obtain ⟨count, hc⟩ := Text.zeros_at_end rest
    exact ⟨count, congrArg (first :: ·) hc⟩

theorem mem_of_mem_trimZeros {cs : List Char} {c : Char} (h : c ∈ trimZeros cs) : c ∈ cs := by
  obtain ⟨count, hcs⟩ := trimZeros_append cs
  rw [hcs]
  exact List.mem_append_left _ h

theorem trimZeros_front {cs : List Char} (h : FrontDigits cs) : FrontDigits (trimZeros cs) := by
  refine ⟨fun c hc => h.digits c (mem_of_mem_trimZeros hc), ?_⟩
  rcases h.head with rfl | ⟨c, tail, rfl, hc⟩
  · exact .inl rfl
  · exact .inr ⟨c, _, rfl, hc⟩

theorem ofCoefficient_front (coefficient : Nat) (exponent : Int) :
    FrontDigits (ofCoefficient coefficient exponent).digits :=
  trimZeros_front (FrontDigits.ofNat coefficient)

theorem ofCoefficient_head {coefficient : Nat} (h : coefficient ≠ 0) (exponent : Int) :
    ∃ c rest, (ofCoefficient coefficient exponent).digits = c :: rest ∧ c ≠ '0' := by
  obtain ⟨c, rest, hd, hc⟩ := Text.head_digits (show 1 < 10 by decide) h
  refine ⟨c, (rest.reverse.dropWhile (· == '0')).reverse, ?_, hc⟩
  rw [ofCoefficient]
  show trimZeros (Text.digits 10 coefficient) = _
  rw [hd, trimZeros]

/-- The number that digits with an exponent denote. -/
def value (s : Scientific) :
    ℚ := Text.decimalNumber s.digits * 10 ^ (s.exponent + 1 - s.digits.length)

/-- Zeros behind digits are places in front of the point. -/
theorem decimalNumber_zeros (cs : List Char) (count : Nat) :
    (Text.decimalNumber (cs ++ List.replicate count '0') : ℚ) =
      Text.decimalNumber cs * 10 ^ (count : Int) := by
  rw [Text.decimalNumber_append, Text.decimalNumber_replicate_zero,
    List.length_replicate, zpow_natCast]
  push_cast
  rw [add_zero]

/-- Without the zeros at the end. -/
def trimmed (s : Scientific) : Scientific := ⟨trimZeros s.digits, s.exponent⟩

/-- **Dropping zeros at the end keeps the value.** -/
theorem value_trimmed (s : Scientific) : s.trimmed.value = s.value := by
  have hten : (10 : ℚ) ≠ 0 := by norm_num
  obtain ⟨count, hcs⟩ := trimZeros_append s.digits
  have hlength := congrArg List.length hcs
  rw [List.length_append, List.length_replicate] at hlength
  have hnumber := decimalNumber_zeros (trimZeros s.digits) count
  rw [← hcs] at hnumber
  show (Text.decimalNumber (trimZeros s.digits) : ℚ) * 10 ^
    (s.exponent + 1 - (trimZeros s.digits).length) = _
  rw [value, hnumber, mul_assoc, ← zpow_add₀ hten]
  congr 2
  omega

theorem value_ofCoefficient (coefficient : Nat) (exponent : Int) :
    (ofCoefficient coefficient exponent).value = coefficient * 10 ^ exponent := by
  have htrimmed : ofCoefficient coefficient exponent =
      (⟨Text.digits 10 coefficient, exponent + (Text.digits 10 coefficient).length - 1⟩ :
        Scientific).trimmed := rfl
  have hexponent : exponent + (Text.digits 10 coefficient).length - 1 + 1 -
      (Text.digits 10 coefficient).length = exponent := by
    omega
  rw [htrimmed, value_trimmed, value, (Text.digits_spec coefficient).2]
  exact congrArg (fun e : Int => (coefficient : ℚ) * 10 ^ e) hexponent

/-- **Placing the point keeps the value.** -/
theorem value_split {s : Scientific} {front back : List Char} (h : s.split = (front, back)) :
    (Text.decimalNumber (front ++ back) : ℚ) * 10 ^ (-(back.length : Int)) = s.value := by
  have hten : (10 : ℚ) ≠ 0 := by norm_num
  rw [split] at h
  split at h
  · next hneg =>
    obtain ⟨rfl, rfl⟩ := Prod.mk.inj h
    have hnumber :
        Text.decimalNumber (['0'] ++ (List.replicate (-s.exponent - 1).toNat '0' ++ s.digits)) =
        Text.decimalNumber s.digits := by
      rw [← List.append_assoc, ← List.replicate_one, List.replicate_append_replicate,
        Text.decimalNumber_append, Text.decimalNumber_replicate_zero, Nat.zero_mul, Nat.zero_add]
    rw [hnumber, value, List.length_append, List.length_replicate]
    congr 2
    omega
  · next hnonneg =>
    obtain ⟨rfl, rfl⟩ := Prod.mk.inj h
    by_cases hlength : s.digits.length ≤ s.exponent.toNat + 1
    · -- all digits stand in front of the point, with zeros behind them
      rw [List.drop_of_length_le hlength, List.take_of_length_le hlength, List.append_nil,
        decimalNumber_zeros, value, List.length_nil, mul_assoc, ← zpow_add₀ hten]
      congr 2
      omega
    · have hzeros : s.exponent.toNat + 1 - s.digits.length = 0 := by omega
      rw [hzeros, List.replicate_zero, List.append_nil, List.take_append_drop, value,
        List.length_drop]
      congr 2
      omega

/-- **Digits at their places** are digits, a point and digits, of the same value. -/
theorem plain_eq {s : Scientific} (h : FrontDigits s.digits)
    (hzero : s = .zero ∨ ∃ c rest, s.digits = c :: rest ∧ c ≠ '0') :
    ∃ front back, s.plain = front ++ '.' :: back ∧ FrontDigits front ∧ back ≠ [] ∧
      (∀ c ∈ back, Text.isAsciiDigit c = true) ∧
      (Text.decimalNumber (front ++ back) : ℚ) * 10 ^ (-(back.length : Int)) = s.value := by
  -- a layout without digits behind the point gets one zero there
  have hpoint : ∀ front back, s.split = (front, back) → FrontDigits front →
      (∀ c ∈ back, Text.isAsciiDigit c = true) →
      ∃ front back, s.plain = front ++ '.' :: back ∧ FrontDigits front ∧ back ≠ [] ∧
        (∀ c ∈ back, Text.isAsciiDigit c = true) ∧
        (Text.decimalNumber (front ++ back) : ℚ) * 10 ^ (-(back.length : Int)) = s.value := by
    intro front back hs hfront hback
    have hvalue := value_split hs
    rw [plain, hs]
    cases back with
    | nil =>
      refine ⟨front, ['0'], rfl, hfront, List.cons_ne_nil _ _, digits_zeros 1, ?_⟩
      rw [← hvalue, ← List.replicate_one, decimalNumber_zeros, List.append_nil,
        List.length_replicate, mul_assoc, ← zpow_add₀ (by norm_num)]
      rfl
    | cons c rest => exact ⟨front, c :: rest, rfl, hfront, List.cons_ne_nil _ _, hback, hvalue⟩
  by_cases hneg : s.exponent < 0
  · refine hpoint ['0'] (List.replicate (-s.exponent - 1).toNat '0' ++ s.digits) ?_ .zero ?_
    · rw [split, if_pos hneg]
    · intro c hc
      rcases List.mem_append.1 hc with hc | hc
      · exact digits_zeros _ c hc
      · exact h.digits c hc
  · rcases hzero with rfl | ⟨first, rest, hd, hfirst⟩
    · exact hpoint ['0'] [] rfl .zero fun _ hc => absurd hc List.not_mem_nil
    · refine hpoint _ _ (by rw [split, if_neg hneg]) ⟨fun c hc => ?_, .inr ?_⟩ fun c hc => ?_
      · rcases List.mem_append.1 hc with hc | hc
        · exact h.digits c (List.mem_of_mem_take hc)
        · exact digits_zeros _ c hc
      · rw [hd, List.take_succ_cons, List.cons_append]
        exact ⟨first, _, rfl, hfirst⟩
      · exact h.digits c (List.mem_of_mem_drop hc)

end Scientific

namespace Double

theorem ne_zero_of_readsBack {x : Double} (hx : x.isZero = false) {coefficient : Nat} {grid : Int}
    (h : x.readsBack coefficient grid = true) : coefficient ≠ 0 := by
  rintro rfl
  rw [readsBack, decide_eq_true_eq, ofDecimal?, if_pos rfl, Option.some.injEq] at h
  have hzero : (zero x.negative).isZero = true := rfl
  rw [h, hx] at hzero
  exact absurd hzero (by decide)

/-- The candidate of a grid reads back. -/
theorem readsBack_of_nearestOnGrid? {tie : Tie} {x : Double} {grid : Int} {coefficient : Nat}
    (h : nearestOnGrid? tie x grid = some coefficient) : x.readsBack coefficient grid = true := by
  rw [nearestOnGrid?] at h
  simp only at h
  split at h
  · next hlow _ => cases h; exact hlow
  · next _ hhigh => cases h; exact hhigh
  · cases h
  · next hlow hhigh =>
    repeat' split at h
    all_goals cases h
    all_goals first | exact hlow | exact hhigh

theorem exists_of_coarsest? {tie : Tie} {x : Double} {steps : Nat} {grid : Int} {s : Scientific}
    (h : coarsest? tie x steps grid = some s) :
    ∃ coefficient grid, s = .ofCoefficient coefficient grid ∧
      x.readsBack coefficient grid = true := by
  induction steps generalizing grid with
  | zero => exact absurd h (by simp [coarsest?])
  | succ steps ih =>
    rw [coarsest?] at h
    split at h
    · next coefficient hc =>
      cases h
      exact ⟨coefficient, grid, rfl, readsBack_of_nearestOnGrid? hc⟩
    · exact ih h

/-- The shortest digits of a double that is not zero are those of a coefficient that is not zero. -/
theorem shortest_eq {x : Double} (hx : x.isZero = false) (tie : Tie) :
    ∃ coefficient grid, x.shortest tie = .ofCoefficient coefficient grid ∧ coefficient ≠ 0 := by
  rw [shortest, if_neg (by rw [hx]; exact Bool.false_ne_true)]
  cases hc : coarsest? tie x 17 (decimalExponent x.numerator x.denominator) with
  | some s =>
    obtain ⟨coefficient, grid, rfl, hr⟩ := exists_of_coarsest? hc
    exact ⟨coefficient, grid, rfl, ne_zero_of_readsBack hx hr⟩
  | none =>
    refine ⟨_, _, rfl, ?_⟩
    rw [isZero, beq_eq_false_iff_ne] at hx
    have hpow : ∀ base exponent : Nat, base ≠ 0 → Nat.pow base exponent ≠ 0 :=
        fun base exponent hb => by
      exact (Nat.pow_pos (Nat.pos_of_ne_zero hb)).ne'
    exact Nat.mul_ne_zero (Nat.mul_ne_zero hx (hpow 2 _ (by decide))) (hpow 5 _ (by decide))

/-- **The shortest digits of a double at their places**: digits, a point and digits, of the same
value. -/
theorem plain_shortest (x : Double) (tie : Tie) :
    ∃ front back, (x.shortest tie).plain = front ++ '.' :: back ∧ FrontDigits front ∧ back ≠ [] ∧
      (∀ c ∈ back, Text.isAsciiDigit c = true) ∧
      (Text.decimalNumber (front ++ back) : ℚ) * 10 ^ (-(back.length : Int)) =
        (x.shortest tie).value := by
  cases hx : x.isZero with
  | true =>
    rw [shortest, if_pos hx]
    exact Scientific.plain_eq .zero (.inl rfl)
  | false =>
    obtain ⟨coefficient, grid, hs, hne⟩ := shortest_eq hx tie
    rw [hs]
    exact Scientific.plain_eq (Scientific.ofCoefficient_front _ _)
      (.inr (Scientific.ofCoefficient_head hne _))

end Double

end Sweep
