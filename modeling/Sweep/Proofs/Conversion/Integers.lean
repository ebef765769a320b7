import Sweep.Proofs.Conversion.Filling
import Sweep.Proofs.Number.Ratios
import Sweep.Proofs.Text.Decimal

/-!
# Whole numbers as they are printed

Six verbs print a whole number, in one of four bases. What stands there is told here by its parts:
spaces, a sign, digits and spaces again, with the digits as their values. `Printed` says which parts
are right for a directive and a number:

* the digits denote the magnitude in the base of the verb, and there are at least as many as the
  precision asks for;
* the sign is the one that number and flags call for;
* spaces bring the whole to the width and no further;
* a zero stands in front of other digits only if precision or width would be missed without it.

Two functions of the model put zeros in front, one for the precision and one for the width, and they
never both do: a precision rules out filling with zeros. The main result is `apply_integer`.
-/

set_option autoImplicit false

namespace Sweep

/-! ## What a value is worth -/

/-- The double is exactly this whole number. -/
def Double.Equals (x : Double) (n : Int) : Prop :=
  (if x.negative then -(x.numerator : Int) else x.numerator) = n * x.denominator

/-- The whole number that a value is: one itself, or a double without a fraction that lies below
10¹⁸. -/
inductive Value.IsInteger : Value → Int → Prop where
  | whole (w : Whole) : IsInteger (.whole w) w.value
  | double {x : Double} {n : Int} : x.Equals n → n.natAbs < 10 ^ 18 → IsInteger (.double x) n

theorem Double.toInt?_of_equals {x : Double} {n : Int} (h : x.Equals n) : x.toInt? = some n := by
  have hpos : 0 < x.denominator := Nat.pos_of_ne_zero x.denominator_ne_zero
  have hnumerator : x.numerator = n.natAbs * x.denominator := by
    have habs := congrArg Int.natAbs h
    rw [Int.natAbs_mul, Int.natAbs_natCast] at habs
    rw [← habs]
    split <;> simp
  have hmod : x.numerator % x.denominator = 0 := by rw [hnumerator, Nat.mul_mod_left]
  have hdiv : x.numerator / x.denominator = n.natAbs := by
    rw [hnumerator, Nat.mul_div_cancel _ hpos]
  unfold toInt?
  rw [if_pos hmod, hdiv]
  -- the sign of the double is that of the number, unless the number is zero
  have hden : (0 : Int) < x.denominator := by exact_mod_cast hpos
  unfold Equals at h
  cases hs : x.negative with
  | true =>
    rw [hs, if_pos rfl] at h
    have hle : n ≤ 0 := by
      by_contra hn
      have hprod := Int.mul_pos (by omega : 0 < n) hden
      omega
    simp only [if_true, Option.some.injEq]
    omega
  | false =>
    rw [hs, if_neg Bool.false_ne_true] at h
    have hge : 0 ≤ n := by
      by_contra hn
      have hprod := Int.mul_neg_of_neg_of_pos (by omega : n < 0) hden
      omega
    simp only [Bool.false_eq_true, if_false, Option.some.injEq]
    omega

theorem Value.integer?_of_isInteger {v : Value} {n : Int} (h : v.IsInteger n) :
    v.integer? = some n := by
  cases h with
  | whole w => rfl
  | double hx hn =>
    simp only [integer?, Double.toInt?_of_equals hx,
      if_pos (show n.natAbs < 1000000000000000000 from hn)]

/-! ## The digits of a verb -/

namespace Verb

/-- The base in which a verb prints whole numbers. -/
def base : Verb → Nat
  | .b => 2
  | .o => 8
  | .x | .upperX => 16
  | _ => 10

/-- The character that a verb prints for a digit. -/
def digit (verb : Verb) (value : Nat) : Char :=
  (if verb = .upperX then "0123456789ABCDEF" else "0123456789abcdef").toList.getD value '0'

theorem one_lt_base (verb : Verb) : 1 < verb.base := by cases verb <;> decide

theorem base_le (verb : Verb) : verb.base ≤ 16 := by cases verb <;> decide

theorem digit_zero (verb : Verb) : verb.digit 0 = '0' := by cases verb <;> rfl

theorem digit_upperX :
    ∀ value < 16, digit .upperX value = (Nat.digitChar value).toUpper := by decide

theorem digit_eq_digitChar {verb : Verb} (hv : verb ≠ .upperX) :
    ∀ value < 16, verb.digit value = Nat.digitChar value := by
  have hlower : ∀ value < 16, "0123456789abcdef".toList.getD value '0' = Nat.digitChar value := by
    decide
  intro value h
  rw [digit, if_neg hv, hlower value h]

end Verb

namespace Directive

/-- The digits of a magnitude denote it in the base of the verb. -/
theorem baseDigits_spec (verb : Verb) (magnitude : Nat) :
    ∃ values : List Nat, baseDigits verb magnitude = values.map verb.digit ∧
      Text.Denotes verb.base magnitude values ∧ values ≠ [] ∧
      (values.head? = some 0 → values = [0]) := by
  obtain ⟨values, hd, hvalues, hne, hhead⟩ := Text.exists_numeral verb.one_lt_base magnitude
  refine ⟨values, ?_, hvalues, hne, hhead⟩
  have hrange : ∀ value ∈ values, value < 16 :=
    fun value hv => Nat.lt_of_lt_of_le (hvalues.range value hv) verb.base_le
  by_cases hv : verb = .upperX
  · subst hv
    calc
      baseDigits .upperX magnitude = (values.map Nat.digitChar).map Char.toUpper := by
        rw [← hd]
        rfl
      _ = values.map (Verb.digit .upperX) := by
        rw [List.map_map]
        exact List.map_congr_left fun value hm => (Verb.digit_upperX value (hrange value hm)).symm
  · calc
      baseDigits verb magnitude = Text.digits verb.base magnitude := by
        cases verb <;> first | rfl | exact absurd rfl hv
      _ = values.map verb.digit := by
        rw [hd]
        exact List.map_congr_left fun value hm =>
          (Verb.digit_eq_digitChar hv value (hrange value hm)).symm

/-- So do the digits that a precision asks for; a zero is put in front of others only to reach the
precision. -/
theorem preciseDigits_spec (d : Directive) (magnitude : Nat) :
    ∃ values : List Nat, d.preciseDigits magnitude = values.map d.verb.digit ∧
      Text.Denotes d.verb.base magnitude values ∧ d.precision.getD 0 ≤ values.length ∧
      (values = [] → d.precision = some 0) ∧
      (values.head? = some 0 → values = [0] ∨ d.precision = some values.length) := by
  obtain ⟨values, hd, hvalues, hne, hhead⟩ := baseDigits_spec d.verb magnitude
  unfold preciseDigits
  cases hp : d.precision with
  | none =>
    exact ⟨values, hd, hvalues, Nat.zero_le _, fun h => absurd h hne, fun h => .inl (hhead h)⟩
  | some p =>
    by_cases hnone : p = 0 ∧ magnitude = 0
    · obtain ⟨rfl, rfl⟩ := hnone
      exact ⟨[], by simp, ⟨by simp, rfl⟩, le_rfl, fun _ => rfl, by simp⟩
    · have hlength : (List.replicate (p - values.length) 0 ++ values).length =
        p - values.length + values.length := by simp
      refine ⟨List.replicate (p - values.length) 0 ++ values, ?_,
        hvalues.zeros_append (Nat.zero_lt_of_lt d.verb.one_lt_base) _, ?_, ?_, ?_⟩
      · simp only [if_neg hnone, Text.padLeft, hd, List.length_map, List.map_append,
          List.map_replicate, Verb.digit_zero]
      · rw [hlength, Option.getD_some]
        omega
      · intro hnil
        exact absurd (List.append_eq_nil_iff.1 hnil).2 hne
      · intro hzero
        by_cases hle : p ≤ values.length
        · rw [Nat.sub_eq_zero_of_le hle, List.replicate_zero, List.nil_append] at hzero ⊢
          exact .inl (hhead hzero)
        · right
          rw [hlength, Nat.sub_add_cancel (Nat.le_of_not_le hle)]

/-! ## Printed numbers -/

/-- The sign that a directive puts in front of a number. -/
inductive SignText (d : Directive) (n : Int) : List Char → Prop where
  | minus : n < 0 → SignText d n ['-']
  | plus : 0 ≤ n → d.plus = true → SignText d n ['+']
  | space : 0 ≤ n → d.plus = false → d.space = true → SignText d n [' ']
  | absent : 0 ≤ n → d.plus = false → d.space = false → SignText d n []

/-- The parts that are right for a directive and a number: spaces in front, a sign, digits by their
values, spaces behind. -/
structure Printed (d : Directive) (n : Int) (front : Nat) (sign : List Char) (digits : List Nat)
    (back : Nat) : Prop where
  signText : SignText d n sign
  denotes : Text.Denotes d.verb.base n.natAbs digits
  precision : d.precision.getD 0 ≤ digits.length
  empty : digits = [] → d.precision = some 0
  /-- a zero in front of other digits is one that the precision or the width takes -/
  zeros : digits.head? = some 0 → digits = [0] ∨ d.precision = some digits.length ∨
    (d.precision = none ∧ d.zero = true ∧ d.minus = false ∧
      sign.length + digits.length = d.width.getD 0)
  width : front + sign.length + digits.length + back =
    max (d.width.getD 0) (sign.length + digits.length)
  left : d.minus = true → front = 0
  right : d.minus = false → back = 0

theorem signText_sign (d : Directive) (n : Int) : SignText d n (d.sign (decide (n < 0))) := by
  unfold sign
  by_cases hn : n < 0
  · rw [if_pos (decide_eq_true hn)]
    exact .minus hn
  · rw [if_neg (by simpa using hn)]
    cases hplus : d.plus with
    | true => exact .plus (Int.not_lt.1 hn) hplus
    | false =>
      cases hspace : d.space with
      | true => exact .space (Int.not_lt.1 hn) hplus hspace
      | false => exact .absent (Int.not_lt.1 hn) hplus hspace

/-- What a directive without a mark of the base makes of a whole number. -/
theorem exists_printed {d : Directive} (hsharp : d.sharp = false) (n : Int) :
    ∃ front sign digits back, Printed d n front sign digits back ∧
      d.fill (d.spellInteger n) =
        List.replicate front ' ' ++ sign ++ digits.map d.verb.digit ++ List.replicate back ' ' := by
  obtain ⟨values, hd, hvalues, hprecision, hempty, hhead⟩ := d.preciseDigits_spec n.natAbs
  obtain ⟨front, zeros, back, hfill, hwidth, hzeros, hleft, hright⟩ :=
    d.fill_number (decide (n < 0)) (d.preciseDigits n.natAbs) d.precision.isNone
  rw [hd, List.length_map] at hwidth
  refine ⟨front, d.sign (decide (n < 0)), List.replicate zeros 0 ++ values, back, ?_, ?_⟩
  · have hlength : (List.replicate zeros 0 ++ values).length = zeros + values.length := by simp
    by_cases hnone : zeros = 0
    · subst hnone
      rw [Nat.zero_add] at hwidth
      exact ⟨d.signText_sign n, hvalues, hprecision, hempty, fun h => (hhead h).imp id .inl, hwidth,
        hleft, hright⟩
    · -- zeros up to the width: there is no precision, and no space
      obtain ⟨hflag, hprecisionNone, hminus, rfl, rfl⟩ := hzeros hnone
      have hp : d.precision = none := Option.isNone_iff_eq_none.1 hprecisionNone
      have hfull : (d.sign (decide (n < 0))).length + (zeros + values.length) = d.width.getD 0 := by
        omega
      refine ⟨d.signText_sign n, hvalues.zeros_append (Nat.zero_lt_of_lt d.verb.one_lt_base) _, ?_,
        ?_, ?_, ?_, hleft, hright⟩
      · rw [hp]
        exact Nat.zero_le _
      · intro hnil
        exact hempty (List.append_eq_nil_iff.1 hnil).2
      · rw [hlength]
        exact fun _ => .inr (.inr ⟨hp, hflag, hminus, hfull⟩)
      · rw [hlength]
        omega
  · have hmarked : d.markedDigits n.natAbs = d.preciseDigits n.natAbs := by
      simp [markedDigits, hsharp]
    rw [spellInteger, hmarked, hfill, hd, List.map_append, List.map_replicate, Verb.digit_zero]
    simp only [List.append_assoc]

/-- The verbs that print whole numbers take every value that is one. -/
theorem spell_of_isInteger {d : Directive} (hverb : d.verb ∈ [Verb.d, .i, .b, .o, .x, .upperX])
    {v : Value} {n : Int} (hv : v.IsInteger n) : d.spell v = .ok (d.spellInteger n) := by
  have hinteger := Value.integer?_of_isInteger hv
  unfold spell
  simp only [List.mem_cons, List.not_mem_nil, or_false] at hverb
  rcases hverb with h | h | h | h | h | h <;> rw [h]
  all_goals cases hv <;> simp only [hinteger]

end Directive

/-- **Whole numbers are printed faithfully**, and a double without a fraction like the whole number
that it is. -/
theorem Conversion.apply_integer {c : Conversion}
    (hverb : c.directive.verb ∈ [Verb.d, .i, .b, .o, .x, .upperX])
    (hsharp : c.directive.sharp = false) {v : Value} {n : Int} (hv : v.IsInteger n) :
    (∃ front sign digits back, c.directive.Printed n front sign digits back ∧
      c.apply v = .ok (c.before.toList ++
        (List.replicate front ' ' ++ sign ++ digits.map c.directive.verb.digit ++
        List.replicate back ' ') ++ c.after.toList)) ∧
      ∀ w : Whole, w.value = n → c.apply v = c.apply (.whole w) := by
  have happly : ∀ v : Value, v.IsInteger n →
      c.apply v = .ok (c.before.toList ++ c.directive.fill (c.directive.spellInteger n) ++
        c.after.toList) := by
    intro v hv
    unfold apply
    rw [Directive.spell_of_isInteger hverb hv]
  constructor
  · obtain ⟨front, sign, digits, back, hprinted, hfill⟩ := Directive.exists_printed hsharp n
    exact ⟨front, sign, digits, back, hprinted, by rw [happly v hv, hfill]⟩
  · rintro w rfl
    rw [happly v hv, happly (.whole w) (.whole w)]

/-- Upper-case hexadecimal digits with a sign, filled with zeros to eight characters. -/
def Conversion.signedHex :
    Conversion := ⟨"<", ⟨false, true, false, true, false, some 8, none, .upperX⟩, ">"⟩

/-- The double -255. -/
def Double.minus255 : Double := ⟨true, ⟨1030, by decide⟩, ⟨0xFE00000000000, by decide⟩⟩

theorem Double.minus255_equals : minus255.Equals (-255) := by
  unfold Equals
  decide +kernel

/-- A double is printed in hexadecimal like the whole number that it is. -/
theorem Conversion.apply_integer_signedHex :
    (signedHex.directive.verb ∈ [Verb.d, .i, .b, .o, .x, .upperX] ∧
      signedHex.directive.sharp = false ∧
        (Value.double .minus255).IsInteger (-255)) ∧
      (∃ front sign digits back, signedHex.directive.Printed (-255) front sign digits back ∧
        signedHex.apply (.double .minus255) =
          .ok ("<".toList ++ (List.replicate front ' ' ++ sign ++ digits.map (Verb.digit .upperX) ++
            List.replicate back ' ') ++ ">".toList)) ∧
      signedHex.apply (.double .minus255) =
        signedHex.apply (.whole ⟨-255, by decide, by decide⟩) := by
  have hverb : signedHex.directive.verb ∈ [Verb.d, .i, .b, .o, .x, .upperX] := by decide
  have hvalue : (Value.double .minus255).IsInteger (-255) :=
    .double Double.minus255_equals (by decide)
  obtain ⟨hprinted, hwhole⟩ := apply_integer hverb rfl hvalue
  exact ⟨⟨hverb, rfl, hvalue⟩, hprinted, hwhole _ rfl⟩

example :
    Conversion.signedHex.apply (.double .minus255) = .ok "<-00000FF>".toList := by decide +kernel

end Sweep
