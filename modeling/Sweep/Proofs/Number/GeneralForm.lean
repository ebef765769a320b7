import Sweep.Proofs.Number.Layouts

/-!
# The general form of a double

The general form with its sign is one numeral (`generalNumeral`) of the digits that the precision
chooses (`scientific`). `GeneralForm` says which numeral that is: the value of those digits, an
exponent exactly where it is called for, and nothing after the point that could be left out. Without
a precision the digits are the shortest that read back, and so **the numeral reads back as the
double** (`double?_generalNumeral`).
-/

set_option autoImplicit false

namespace Sweep.Double

/-! ## The digits of the form -/

theorem isZero_value {x : Double} (hx : x.isZero = true) :
    (x.significand : ℚ) * 2 ^ x.scale = 0 := by
  rw [isZero, beq_iff_eq] at hx
  rw [hx, Nat.cast_zero, zero_mul]

/-- A given number of digits: as many as that, and off by half a unit of the last one at most. -/
theorem significant_spec (x : Double) {count : Nat} (hcount : 0 < count) :
    (x.significant count).Normal ∧ (x.significant count).digits.length = count ∧
      |(x.significant count).value - x.significand * 2 ^ x.scale| ≤
        10 ^ ((x.significant count).exponent + 1 - count) / 2 := by
  cases hx : x.isZero with
  | true =>
    have hs : x.significant count = ⟨List.replicate count '0', 0⟩ := by rw [significant, if_pos hx]
    have hpred : count = count - 1 + 1 := by omega
    rw [hs, isZero_value hx, Scientific.value, Text.decimalNumber_replicate_zero]
    refine ⟨⟨digits_zeros count, .inr ⟨count - 1, by rw [← hpred], rfl⟩⟩, List.length_replicate, ?_⟩
    rw [Nat.cast_zero, zero_mul, sub_zero, abs_zero]
    exact div_nonneg (zpow_nonneg (by norm_num) _) two_pos.le
  | false =>
    obtain ⟨coefficient, exponent, hs, hlow, hhigh, herror⟩ := exists_significant hx hcount
    have hne : coefficient ≠ 0 := (Nat.lt_of_lt_of_le (Nat.pow_pos (by decide)) hlow).ne'
    have hlength : (Nat.toDigits 10 coefficient).length = count := by
      refine Nat.le_antisymm ((Nat.length_toDigits_le_iff (by decide) hcount).2 hhigh) ?_
      by_contra hlt
      -- fewer digits would not reach the power of ten below
      have hpos : 0 < (Nat.toDigits 10 coefficient).length := Nat.length_toDigits_pos
      have hupper :=
        (Nat.length_toDigits_le_iff (by decide) hpos).1
          (le_refl (Nat.toDigits 10 coefficient).length)
      have hmono : 10 ^ (Nat.toDigits 10 coefficient).length ≤ 10 ^ (count - 1) :=
        Nat.pow_le_pow_right (by decide) (by omega)
      omega
    have hvalue : (⟨Nat.toDigits 10 coefficient, exponent⟩ : Scientific).value =
        coefficient * 10 ^ (exponent + 1 - count) := by
      rw [Scientific.value, hlength]
      exact congrArg (fun n : Nat => (n : ℚ) * 10 ^ (exponent + 1 - (count : Int)))
        (Text.digits_spec coefficient).2
    obtain ⟨c, rest, hd, hc⟩ := Text.head_digits (show 1 < 10 by decide) hne
    rw [hs, hvalue]
    exact ⟨⟨(Text.digits_spec coefficient).1, .inl ⟨c, rest, hd, hc⟩⟩, hlength, herror⟩

theorem normal_shortest (x : Double) (tie : Tie) : (x.shortest tie).Normal := by
  refine ⟨(front_shortest x tie).digits, ?_⟩
  cases hx : x.isZero with
  | true =>
    rw [shortest, if_pos hx]
    exact .inr ⟨0, rfl, rfl⟩
  | false =>
    obtain ⟨coefficient, grid, hs, hne⟩ := shortest_eq hx tie
    rw [hs]
    exact .inl (Scientific.ofCoefficient_head hne grid)

/-- The digits and the exponent that the general form starts from: as many as a precision says, at
least one, or else the fewest that read back. -/
def scientific (x : Double) (precision : Option Nat) : Scientific :=
  match precision with
  | some p => x.significant (max p 1)
  | none => x.shortest .upward

/-- What the digits have to do with the double. -/
structure StandsFor (s : Scientific) (x : Double) (precision : Option Nat) : Prop where
  normal : s.Normal
  /-- with a precision as many as it says, off by half a unit of the last one at most -/
  rounded : ∀ p ∈ precision, s.digits.length = max p 1 ∧
    |s.value - x.significand * 2 ^ x.scale| ≤ 10 ^ (s.exponent + 1 - (max p 1 : Nat)) / 2
  /-- without a precision any number written with them reads back -/
  readsBack : precision = none →
    ∀ (c : Nat) (e : Int), (c : ℚ) * 10 ^ e = s.value → ofDecimal? x.negative c e = some x

theorem scientific_standsFor (x : Double) (precision : Option Nat) :
    StandsFor (x.scientific precision) x precision := by
  cases precision with
  | none =>
    refine ⟨x.normal_shortest .upward, ?_, fun _ c e h => ofDecimal?_of_value_shortest h⟩
    rintro p ⟨⟩
  | some p =>
    have hspec := x.significant_spec (show 0 < max p 1 by omega)
    refine ⟨hspec.1, ?_, ?_⟩
    · rintro p ⟨⟩
      exact hspec.2
    · rintro ⟨⟩

/-- The general form keeps those digits, or drops the zeros at their end. -/
theorem generalDigits_cases (x : Double) (precision : Option Nat) (keepZeros : Bool) :
    x.generalDigits precision keepZeros = if keepZeros then x.scientific precision
      else (x.scientific precision).trimmed := rfl

theorem normal_generalDigits (x : Double) (precision : Option Nat) (keepZeros : Bool) :
    (x.generalDigits precision keepZeros).Normal := by
  rw [generalDigits_cases]
  split
  · exact (x.scientific_standsFor precision).normal
  · exact (x.scientific_standsFor precision).normal.trimmed

theorem exponent_generalDigits (x : Double) (precision : Option Nat) (keepZeros : Bool) :
    (x.generalDigits precision keepZeros).exponent = (x.scientific precision).exponent := by
  rw [generalDigits_cases]
  split <;> rfl

theorem value_generalDigits (x : Double) (precision : Option Nat) (keepZeros : Bool) :
    (x.generalDigits precision keepZeros).value = (x.scientific precision).value := by
  rw [generalDigits_cases]
  split
  · rfl
  · exact Scientific.value_trimmed _

/-! ## The change to an exponent -/

/-- The first exponent that a precision writes out. -/
def firstPower (precision : Option Nat) : Int :=
  match precision with
  | none => 6
  | some p => max p 1

/-- The limit that counts the digits changes at the same exponents: where it is lowered, the
exponent is below both. -/
theorem generalLimit_le_iff (precision : Option Nat) (s : Scientific) :
    generalLimit precision s ≤ s.exponent ↔ firstPower precision ≤ s.exponent := by
  cases precision with
  | none => rfl
  | some p =>
    simp only [generalLimit, firstPower]
    split <;> omega

/-! ## The form as one numeral -/

/-- The general form by its parts. -/
def generalNumeral (x : Double) (precision : Option Nat) (keepZeros : Bool) : Numeral :=
  let s := x.generalDigits precision keepZeros
  if s.exponent < -4 ∨ generalLimit precision s ≤ s.exponent then s.powerNumeral x.negative
  else s.pointNumeral x.negative

theorem generalMagnitude_eq (x : Double) (precision : Option Nat) (keepZeros : Bool) :
    x.generalMagnitude precision keepZeros =
      (x.generalNumeral precision keepZeros).magnitudeText := by
  rw [generalMagnitude, generalNumeral]
  split
  · exact Scientific.withExponent_eq _ _
  · exact Scientific.positional_eq _ _

theorem negative_generalNumeral (x : Double) (precision : Option Nat) (keepZeros : Bool) :
    (x.generalNumeral precision keepZeros).negative = x.negative := by
  rw [generalNumeral]
  split <;> rfl

theorem general_eq (x : Double) (precision : Option Nat) (keepZeros : Bool) :
    x.general precision keepZeros = (x.generalNumeral precision keepZeros).text := by
  rw [general, Numeral.text, negative_generalNumeral, generalMagnitude_eq]

theorem wellFormed_generalNumeral (x : Double) (precision : Option Nat) (keepZeros : Bool) :
    (x.generalNumeral precision keepZeros).WellFormed := by
  rw [generalNumeral]
  split
  · exact Scientific.wellFormed_powerNumeral (x.normal_generalDigits precision keepZeros) _
  · exact Scientific.wellFormed_pointNumeral (x.normal_generalDigits precision keepZeros) _

theorem magnitude_generalNumeral (x : Double) (precision : Option Nat) (keepZeros : Bool) :
    (x.generalNumeral precision keepZeros).magnitude = (x.scientific precision).value := by
  rw [generalNumeral, ← value_generalDigits x precision keepZeros]
  split
  · exact Scientific.magnitude_powerNumeral (x.normal_generalDigits precision keepZeros) _
  · exact Scientific.magnitude_pointNumeral _ _

/-- **The general form without a precision reads back as the double.** -/
theorem double?_generalNumeral (x : Double) (keepZeros : Bool) :
    (x.generalNumeral none keepZeros).double? = some x := by
  have hvalue := x.magnitude_generalNumeral none keepZeros
  rw [Numeral.double?, negative_generalNumeral]
  exact (x.scientific_standsFor none).readsBack rfl _ _ hvalue

/-! ## What the form is -/

/-- The numeral that is right for a double. -/
structure GeneralForm (x : Double) (precision : Option Nat) (keepZeros : Bool)
    (n : Numeral) : Prop where
  wellFormed : n.WellFormed
  /-- a minus sign exactly for negative doubles, minus zero among them -/
  sign : n.negative = x.negative
  /-- the number that the digits denote -/
  magnitude : n.magnitude = (x.scientific precision).value
  /-- an exponent exactly where there are too many places to write out -/
  power_iff : n.exponent.isSome = true ↔
    (x.scientific precision).exponent < -4 ∨
    firstPower precision ≤ (x.scientific precision).exponent
  power_digits : ∀ e ∈ n.exponent, 2 ≤ e.2.length
  /-- no point without digits behind it, and no zero at the end of those -/
  noZero : keepZeros = false → ∀ fraction ∈ n.fraction, fraction ≠ [] ∧ fraction.getLast? ≠ some '0'

theorem fraction_generalNumeral (x : Double) (precision : Option Nat) :
    ∀ fraction ∈ (x.generalNumeral precision false).fraction,
      fraction ≠ [] ∧ fraction.getLast? ≠ some '0' := by
  intro fraction h
  rw [generalNumeral] at h
  split at h
  · refine ⟨?_, Scientific.getLast?_powerNumeral _ _ fraction h⟩
    obtain ⟨rfl, hne⟩ := Scientific.mem_fractionOf h
    exact hne
  · refine ⟨?_,
      Scientific.getLast?_pointNumeral (x.scientific_standsFor precision).normal _ fraction h⟩
    obtain ⟨rfl, hne⟩ := Scientific.mem_fractionOf h
    exact hne

theorem generalForm (x : Double) (precision : Option Nat) (keepZeros : Bool) :
    x.GeneralForm precision keepZeros (x.generalNumeral precision keepZeros) := by
  refine ⟨x.wellFormed_generalNumeral precision keepZeros,
    x.negative_generalNumeral precision keepZeros,
    x.magnitude_generalNumeral precision keepZeros, ?_, ?_, ?_⟩
  · rw [generalNumeral, ← exponent_generalDigits x precision keepZeros, ← generalLimit_le_iff]
    split
    · next h => exact iff_of_true rfl h
    · next h => exact iff_of_false Bool.false_ne_true h
  · intro e he
    rw [generalNumeral] at he
    split at he
    · cases he
      show 2 ≤ (Text.padLeft '0' 2 _).length
      rw [Text.padLeft, List.length_append, List.length_replicate]
      omega
    · cases he
  · rintro rfl
    exact x.fraction_generalNumeral precision

end Sweep.Double
