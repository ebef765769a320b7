import Sweep.Proofs.Number.Characters
import Sweep.Proofs.Number.Numeral
import Sweep.Proofs.Number.Significant

/-!
# The general form lays out digits and keeps their value

The general form of a double is written with an exponent, or at its places in one of three ways.
Each way is a `Numeral` of the digits that were chosen (`pointNumeral`, `powerNumeral`), so its
value is that of the digits, and its parts tell where zeros and the point stand. The digits in
question are `Normal`: no zero stands in front unless the number is zero, which is what keeps a
fraction from ending in a zero once zeros at the end of the digits are gone.

`layOut?` is the layout by cutting: it cuts digits where they must reach that far, and adds as many
zeros as a difference says that must not be negative, and fails where it does not hold. It never
fails and gives the same text (`layOut?_eq`).
-/

set_option autoImplicit false

namespace Sweep

namespace Scientific

/-! ## Digits that begin with no zero -/

/-- Digits that begin with no zero; or nothing but zeros, with no exponent. -/
structure Normal (s : Scientific) : Prop where
  digits : ∀ c ∈ s.digits, Text.isAsciiDigit c = true
  head : (∃ c rest, s.digits = c :: rest ∧ c ≠ '0') ∨
    ∃ count, s.digits = List.replicate (count + 1) '0' ∧ s.exponent = 0

theorem Normal.exists_cons {s : Scientific} (h : s.Normal) : ∃ c rest, s.digits = c :: rest := by
  rcases h.head with ⟨c, rest, hd, -⟩ | ⟨count, hd, -⟩
  · exact ⟨c, rest, hd⟩
  · exact ⟨'0', List.replicate count '0', hd⟩

theorem Normal.trimmed {s : Scientific} (h : s.Normal) : s.trimmed.Normal := by
  refine ⟨fun c hc => h.digits c (mem_of_mem_trimZeros hc), ?_⟩
  rcases h.head with ⟨c, rest, hd, hc⟩ | ⟨count, hd, he⟩
  · left
    refine ⟨c, (rest.reverse.dropWhile (· == '0')).reverse, ?_, hc⟩
    show trimZeros s.digits = _
    rw [hd, trimZeros]
  · right
    refine ⟨0, ?_, he⟩
    have hnone : (List.replicate count '0').dropWhile (· == '0') = [] :=
      List.dropWhile_eq_nil_iff.2 (by simp)
    show trimZeros s.digits = _
    rw [hd, List.replicate_succ, trimZeros, List.reverse_replicate, hnone]
    rfl

/-- Trimmed digits end in a zero only if there is no other. -/
theorem eq_zero_of_trimmed (s : Scientific) (h : s.trimmed.digits.getLast? = some '0') :
    s.trimmed.digits = ['0'] := by
  obtain ⟨digits, exponent⟩ := s
  cases digits with
  | nil => cases h
  | cons first rest =>
    change (first :: (rest.reverse.dropWhile (· == '0')).reverse).getLast? = some '0' at h
    show first :: (rest.reverse.dropWhile (· == '0')).reverse = ['0']
    cases hr : rest.reverse.dropWhile (· == '0') with
    | nil =>
      rw [hr] at h
      exact congrArg (· :: []) (Option.some.inj h)
    | cons c more =>
      have hc := Text.head_dropWhile (· == '0') rest.reverse c (by rw [hr]; rfl)
      rw [hr, List.reverse_cons, ← List.cons_append, List.getLast?_concat, Option.some.injEq] at h
      rw [h] at hc
      exact absurd hc (by decide)

/-! ## The two forms as numerals -/

/-- Digits behind a point, and no point in front of none. -/
def fractionOf (cs : List Char) : Option (List Char) := if cs = [] then none else some cs

theorem fractionOf_getD (cs : List Char) : (fractionOf cs).getD [] = cs := by
  unfold fractionOf
  split
  · next h => rw [h, Option.getD_none]
  · rfl

theorem mem_fractionOf {cs digits : List Char} (h : digits ∈ fractionOf cs) :
    digits = cs ∧ cs ≠ [] := by
  unfold fractionOf at h
  split at h
  · cases h
  · next hne => exact ⟨(Option.some.inj h).symm, hne⟩

/-- At its places. -/
def pointNumeral (negative : Bool) (s : Scientific) :
    Numeral := ⟨negative, s.split.1, fractionOf s.split.2, none⟩

/-- With an exponent of at least two digits. -/
def powerNumeral (negative : Bool) (s : Scientific) : Numeral :=
  ⟨negative, s.digits.take 1, fractionOf (s.digits.drop 1),
    some (decide (s.exponent < 0), Text.padLeft '0' 2 (Text.digits 10 s.exponent.natAbs))⟩

theorem positional_eq (s : Scientific) (negative : Bool) :
    s.positional = (s.pointNumeral negative).magnitudeText := by
  rw [positional, pointNumeral]
  cases hs : s.split with
  | mk front back =>
    cases back with
    | nil => exact (List.append_nil front).symm
    | cons c rest => exact (congrArg (front ++ '.' :: ·) (List.append_nil (c :: rest))).symm

theorem mantissa_eq (s : Scientific) :
    s.mantissa = s.digits.take 1 ++ Numeral.fractionText (fractionOf (s.digits.drop 1)) := by
  rw [mantissa.eq_def]
  split
  · next hd => rw [hd]; rfl
  · next digit hd => rw [hd]; rfl
  · next digit rest hne hd =>
    rw [hd]
    cases rest with
    | nil => exact absurd rfl hne
    | cons c more => rfl

theorem withExponent_eq (s : Scientific) (negative : Bool) :
    s.withExponent = (s.powerNumeral negative).magnitudeText := by
  rw [withExponent, mantissa_eq, List.append_assoc, exponentText, powerNumeral,
    Numeral.magnitudeText, Numeral.powerText]
  simp only [decide_eq_true_eq]
  rfl

theorem split_of_neg {s : Scientific} (h : s.exponent < 0) :
    s.split = (['0'], List.replicate (-s.exponent - 1).toNat '0' ++ s.digits) := by
  rw [split, if_pos h]

theorem split_of_not_neg {s : Scientific} (h : ¬ s.exponent < 0) :
    s.split = (s.digits.take (s.exponent.toNat + 1) ++
      List.replicate (s.exponent.toNat + 1 - s.digits.length) '0',
      s.digits.drop (s.exponent.toNat + 1)) := by
  rw [split, if_neg h]

section Normal

variable {s : Scientific} (h : s.Normal) (negative : Bool)
include h

theorem split_digits :
    (∀ c ∈ s.split.1, Text.isAsciiDigit c = true) ∧
      ∀ c ∈ s.split.2, Text.isAsciiDigit c = true := by
  by_cases hneg : s.exponent < 0
  · rw [split_of_neg hneg]
    refine ⟨digits_zeros 1, fun c hc => ?_⟩
    rcases List.mem_append.1 hc with hc | hc
    · exact digits_zeros _ c hc
    · exact h.digits c hc
  · rw [split_of_not_neg hneg]
    refine ⟨fun c hc => ?_, fun c hc => h.digits c (List.mem_of_mem_drop hc)⟩
    rcases List.mem_append.1 hc with hc | hc
    · exact h.digits c (List.mem_of_mem_take hc)
    · exact digits_zeros _ c hc

theorem wellFormed_pointNumeral : (s.pointNumeral negative).WellFormed := by
  obtain ⟨hfront, hback⟩ := split_digits h
  refine ⟨?_, hfront, ?_, ?_, ?_⟩
  · show s.split.1 ≠ []
    obtain ⟨c, rest, hd⟩ := h.exists_cons
    by_cases hneg : s.exponent < 0
    · rw [split_of_neg hneg]
      exact List.cons_ne_nil _ _
    · rw [split_of_not_neg hneg, hd]
      exact List.cons_ne_nil _ _
  · intro digits hd
    rw [(mem_fractionOf hd).1]
    exact hback
  · rintro e ⟨⟩
  · rintro e ⟨⟩

theorem wellFormed_powerNumeral : (s.powerNumeral negative).WellFormed := by
  obtain ⟨c, rest, hd⟩ := h.exists_cons
  have hpower : ∀ c ∈ Text.padLeft '0' 2 (Text.digits 10 s.exponent.natAbs),
      Text.isAsciiDigit c = true := by
    intro c hc
    rcases List.mem_append.1 hc with hc | hc
    · exact digits_zeros _ c hc
    · exact (Text.digits_spec _).1 c hc
  have hne : Text.padLeft '0' 2 (Text.digits 10 s.exponent.natAbs) ≠ [] :=
    List.append_ne_nil_of_right_ne_nil _ (List.ne_nil_of_length_pos Nat.length_toDigits_pos)
  refine ⟨?_, fun c hc => h.digits c (List.mem_of_mem_take hc), fun digits hf => ?_, ?_, ?_⟩
  · show s.digits.take 1 ≠ []
    rw [hd, List.take_succ_cons]
    exact List.cons_ne_nil _ _
  · rw [(mem_fractionOf hf).1]
    exact fun c hc => h.digits c (List.mem_of_mem_drop hc)
  · rintro e ⟨⟩
    exact hne
  · rintro e ⟨⟩
    exact hpower

theorem magnitude_powerNumeral : (s.powerNumeral negative).magnitude = s.value := by
  obtain ⟨c, rest, hd⟩ := h.exists_cons
  have hnumber : Text.decimalNumber (Text.padLeft '0' 2 (Text.digits 10 s.exponent.natAbs)) =
      s.exponent.natAbs := by
    rw [Text.padLeft, Text.decimalNumber_append, Text.decimalNumber_replicate_zero,
      Nat.zero_mul, Nat.zero_add, (Text.digits_spec _).2]
  have hpower : (s.powerNumeral negative).power = s.exponent := by
    simp only [powerNumeral, Numeral.power, hnumber, decide_eq_true_eq]
    split <;> omega
  rw [Numeral.magnitude, hpower, powerNumeral, Numeral.decimals, fractionOf_getD,
    List.take_append_drop, value, hd]
  congr 2
  simp only [List.drop_succ_cons, List.drop_zero, List.length_cons]
  omega

end Normal

theorem magnitude_pointNumeral (s : Scientific) (negative : Bool) :
    (s.pointNumeral negative).magnitude = s.value := by
  rw [← value_split (show s.split = (s.split.1, s.split.2) from rfl), Numeral.magnitude,
    pointNumeral, Numeral.decimals, fractionOf_getD, Numeral.power, zero_sub]

/-! ## No zero at the end of a fraction -/

/-- A fraction made of trimmed digits ends in no zero. -/
theorem getLast?_pointNumeral {s : Scientific} (h : s.Normal) (negative : Bool) :
    ∀ digits ∈ (s.trimmed.pointNumeral negative).fraction, digits.getLast? ≠ some '0' := by
  intro digits hd hlast
  obtain ⟨rfl, hne⟩ := mem_fractionOf hd
  obtain ⟨c, rest, hcons⟩ := h.trimmed.exists_cons
  by_cases hneg : s.trimmed.exponent < 0
  · -- zeros in front of the digits: the last of the digits is the last of all
    rw [split_of_neg hneg,
      List.getLast?_append_of_ne_nil _ (by rw [hcons]; exact List.cons_ne_nil _ _)] at hlast
    have hzero := s.eq_zero_of_trimmed hlast
    rcases h.trimmed.head with ⟨first, more, hfirst, hnonzero⟩ | ⟨_, -, he⟩
    · rw [hzero] at hfirst
      exact hnonzero (List.cons.inj hfirst).1.symm
    · omega
  · rw [split_of_not_neg hneg] at hlast hne
    rw [List.getLast?_drop, if_neg (by rwa [Ne, List.drop_eq_nil_iff] at hne)] at hlast
    rw [s.eq_zero_of_trimmed hlast] at hne
    exact hne (List.drop_of_length_le (Nat.le_add_left 1 _))

theorem getLast?_powerNumeral (s : Scientific) (negative : Bool) :
    ∀ digits ∈ (s.trimmed.powerNumeral negative).fraction, digits.getLast? ≠ some '0' := by
  intro digits hd hlast
  obtain ⟨rfl, hne⟩ := mem_fractionOf hd
  rw [List.getLast?_drop, if_neg (by rwa [Ne, List.drop_eq_nil_iff] at hne)] at hlast
  rw [s.eq_zero_of_trimmed hlast] at hne
  exact hne rfl

/-! ## Laying out by cutting -/

/-- The two parts of a text, cut where the text must reach. -/
def cut? (count : Nat) (cs : List Char) : Option (List Char × List Char) :=
  if count ≤ cs.length then some (cs.take count, cs.drop count) else none

/-- Zeros, as many as a number says that must not be negative. -/
def zeros? (count : Int) :
    Option (List Char) := if 0 ≤ count then some (List.replicate count.toNat '0') else none

/-- The layout of digits, with an exponent below -4 and from a limit on: every cut must be within
the digits, and no count of zeros may be negative. -/
def layOut? (limit : Int) (s : Scientific) : Option (List Char) :=
  if s.exponent < -4 ∨ limit ≤ s.exponent then
    (cut? 1 s.digits).map fun (head, tail) =>
      (if tail = [] then head else head ++ '.' :: tail) ++ 'e' :: exponentText 2 s.exponent
  else
    let point := s.exponent + 1
    if point ≤ 0 then (zeros? (-point)).map fun zeros => '0' :: '.' :: (zeros ++ s.digits)
    else if (s.digits.length : Int) ≤ point then (zeros? (point - s.digits.length)).map fun zeros =>
      s.digits ++ zeros
    else (cut? point.toNat s.digits).map fun (front, back) => front ++ '.' :: back

/-- **No cut is out of range and no count of zeros is negative**, whatever the limit is. -/
theorem layOut?_eq {s : Scientific} (h : s.Normal) (limit : Int) :
    s.layOut? limit = some (if s.exponent < -4 ∨
      limit ≤ s.exponent then s.withExponent else s.positional) := by
  obtain ⟨c, rest, hd⟩ := h.exists_cons
  have hlength : 1 ≤ s.digits.length := by rw [hd]; exact Nat.le_add_left 1 _
  unfold layOut?
  split
  · -- the cut behind the first digit
    have hpoint : ∀ tail : List Char,
        (if tail = [] then s.digits.take 1 else s.digits.take 1 ++ '.' :: tail) =
        s.digits.take 1 ++ Numeral.fractionText (fractionOf tail) := by
      intro tail
      unfold fractionOf
      split
      · exact (List.append_nil _).symm
      · rfl
    rw [cut?, if_pos hlength, Option.map_some, withExponent, mantissa_eq]
    exact congrArg (fun front => some (front ++ 'e' :: exponentText 2 s.exponent)) (hpoint _)
  · simp only
    rw [positional]
    by_cases hneg : s.exponent < 0
    · have hcount : -(s.exponent + 1) = -s.exponent - 1 := by ring
      rw [if_pos (by omega), zeros?, if_pos (by omega), Option.map_some, split_of_neg hneg, hcount]
      simp only [hd]
      split
      · next heq => simp at heq
      · next heq =>
        cases heq
        rfl
    · have htoNat : (s.exponent + 1).toNat = s.exponent.toNat + 1 := by omega
      rw [if_neg (by omega), split_of_not_neg hneg]
      by_cases hfits : (s.digits.length : Int) ≤ s.exponent + 1
      · -- all digits in front of the point
        have hcount : (s.exponent + 1 - s.digits.length).toNat =
          s.exponent.toNat + 1 - s.digits.length := by omega
        have hall : s.digits.length ≤ s.exponent.toNat + 1 := by omega
        rw [if_pos hfits, zeros?, if_pos (by omega), Option.map_some, hcount]
        simp only [List.drop_of_length_le hall, List.take_of_length_le hall]
      · have hshort : s.exponent.toNat + 1 - s.digits.length = 0 := by omega
        -- digits are left for behind the point, so the point is written
        have hrest : s.digits.drop (s.exponent.toNat + 1) ≠ [] := by
          rw [Ne, List.drop_eq_nil_iff]
          omega
        rw [if_neg hfits, cut?, if_pos (by omega), Option.map_some, htoNat]
        simp only [hshort, List.replicate_zero, List.append_nil]

end Scientific

end Sweep
