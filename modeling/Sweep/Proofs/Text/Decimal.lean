import Mathlib.Data.List.Induction
import Mathlib.Tactic.Ring
import Sweep.Proofs.Key.Scanning
import Sweep.Proofs.Text.Numeral

/-!
# Decimal and hexadecimal digits, read back

The digits that are written for a number are digits, do not begin with a zero unless the number is
zero, and denote the number; zeros in front change nothing. Hexadecimal digits of a fixed width are
read back in either case.
-/

set_option autoImplicit false

namespace Sweep.Text

/-- What is left after the characters of a class does not begin with one. -/
theorem head_dropWhile (p : Char → Bool) (cs : List Char) :
    ∀ c ∈ (cs.dropWhile p).head?, p c = false := by
  intro c hc
  have hn := List.head?_dropWhile_not p cs
  rw [hc] at hn
  exact hn

/-- The characters of a class at the front of a text are the same ones if the text goes on with none
of them. -/
theorem span_append {p : Char → Bool} (cs : List Char) {rest : List Char}
    (h : ∀ c ∈ rest.head?, p c = false) :
    (cs ++ rest).takeWhile p = cs.takeWhile p ∧
      (cs ++ rest).dropWhile p = cs.dropWhile p ++ rest := by
  have hends : ∀ c ∈ (cs.dropWhile p ++ rest).head?, p c = false := by
    intro c hc
    cases hd : cs.dropWhile p with
    | nil =>
      rw [hd] at hc
      exact h c hc
    | cons first more =>
      rw [hd] at hc
      cases hc
      exact head_dropWhile p cs c (by rw [hd]; rfl)
  have hrun := Key.span_run (fun c (hc : c ∈ cs.takeWhile p) => List.mem_takeWhile_imp hc) hends
  rwa [← List.append_assoc, List.takeWhile_append_dropWhile] at hrun

/-! ## Decimal digits -/

theorem ne_of_digit {c other : Char} (h : isAsciiDigit c = true) (ho : isAsciiDigit other = false) :
    c ≠ other := by
  rintro rfl
  exact absurd (h.symm.trans ho) Bool.noConfusion

/-- No number begins with what is neither a digit nor a minus sign. -/
theorem ne_of_number {c other : Char} (h : c = '-' ∨ isAsciiDigit c = true) (hminus : '-' ≠ other)
    (ho : isAsciiDigit other = false) : c ≠ other := by
  rcases h with rfl | hd
  · exact hminus
  · exact ne_of_digit hd ho

theorem decimalValue?_digitChar :
    ∀ value < 10, decimalValue? (Nat.digitChar value) = some value := by decide

theorem isAsciiDigit_digitChar :
    ∀ value < 10, isAsciiDigit (Nat.digitChar value) = true := by decide

theorem decimalNumber_append (front back : List Char) :
    decimalNumber (front ++ back) = decimalNumber front * 10 ^ back.length +
      decimalNumber back := by
  have hfrom : ∀ (cs : List Char) (n : Nat),
      cs.foldl (fun n c => n * 10 + (decimalValue? c).getD 0) n =
        n * 10 ^ cs.length + decimalNumber cs := by
    intro cs
    induction cs with
    | nil => intro n; simp [decimalNumber]
    | cons c rest ih =>
      intro n
      rw [decimalNumber, List.foldl_cons, List.foldl_cons, ih, ih, List.length_cons]
      ring
  rw [decimalNumber, List.foldl_append, hfrom]
  rfl

/-- Digits denote a number below the power of ten of their count. -/
theorem decimalNumber_lt (cs : List Char) : decimalNumber cs < 10 ^ cs.length := by
  induction cs using List.reverseRecOn with
  | nil => exact Nat.one_pos
  | append_singleton front last ih =>
    have hlast : decimalNumber [last] ≤ 9 := by
      show 0 * 10 + (decimalValue? last).getD 0 ≤ 9
      rw [decimalValue?]
      split
      · next h =>
        have hhigh : last.toNat ≤ 57 := h.2
        show 0 * 10 + (last.toNat - 48) ≤ 9
        omega
      · exact Nat.zero_le 9
    rw [decimalNumber_append, List.length_append, List.length_singleton, Nat.pow_one, Nat.pow_succ]
    omega

theorem decimalNumber_replicate_zero (count : Nat) :
    decimalNumber (List.replicate count '0') = 0 := by
  induction count with
  | zero => rfl
  | succ count ih =>
    rw [List.replicate_succ', decimalNumber_append, ih, Nat.zero_mul, Nat.zero_add]
    rfl

/-- The zeros at the end of digits, and what stands in front of them. -/
theorem zeros_at_end (cs : List Char) :
    ∃ count, cs = (cs.reverse.dropWhile (· == '0')).reverse ++ List.replicate count '0' := by
  have hzeros : ∀ c ∈ cs.reverse.takeWhile (· == '0'), c = '0' := by
    intro c hc
    exact beq_iff_eq.1 (List.mem_takeWhile_imp (p := (· == '0')) hc)
  obtain ⟨count, hcount⟩ : ∃ count, cs.reverse.takeWhile (· == '0') = List.replicate count '0' :=
    ⟨_, List.eq_replicate_iff.2 ⟨rfl, hzeros⟩⟩
  refine ⟨count, ?_⟩
  calc cs = (cs.reverse.takeWhile (· == '0') ++ cs.reverse.dropWhile (· == '0')).reverse := by
        rw [List.takeWhile_append_dropWhile, List.reverse_reverse]
    _ = (cs.reverse.dropWhile (· == '0')).reverse ++ List.replicate count '0' := by
        rw [List.reverse_append, hcount, List.reverse_replicate]

theorem decimalNumber_map_digitChar {values : List Nat} (h : ∀ value ∈ values, value < 10) :
    decimalNumber (values.map Nat.digitChar) = numberOf 10 values := by
  rw [decimalNumber, List.foldl_map, numberOf]
  refine List.foldl_ext _ _ 0 fun n value hv => ?_
  rw [decimalValue?_digitChar value (h value hv)]
  rfl

/-- **The digits of a number are digits and denote it.** -/
theorem digits_spec (n : Nat) :
    (∀ c ∈ digits 10 n, isAsciiDigit c = true) ∧ decimalNumber (digits 10 n) = n := by
  obtain ⟨values, hd, hall, hv⟩ := exists_digit_values (show 1 < 10 by decide) n
  rw [hd, decimalNumber_map_digitChar hall]
  refine ⟨fun c hc => ?_, hv⟩
  obtain ⟨value, hm, rfl⟩ := List.mem_map.1 hc
  exact isAsciiDigit_digitChar value (hall value hm)

theorem digits_zero (base : Nat) : digits base 0 = ['0'] := Nat.toDigits_zero base

/-- No zero stands in front, unless it is the number. -/
theorem head_digits {base n : Nat} (hb : 1 < base) (hn : n ≠ 0) :
    ∃ c rest, digits base n = c :: rest ∧ c ≠ '0' := by
  induction n using Nat.strongRecOn with
  | ind n ih =>
    rw [digits, Nat.toDigits_eq_if hb]
    by_cases hlt : n < base
    · rw [if_pos hlt]
      exact ⟨_, [], rfl, fun hc => hn (Nat.digitChar_eq_zero.1 hc)⟩
    · have hquotient : n / base ≠ 0 := (Nat.div_pos (Nat.le_of_not_lt hlt) (by omega)).ne'
      obtain ⟨c, rest, hd, hc⟩ := ih (n / base) (Nat.div_lt_self (by omega) hb) hquotient
      rw [digits] at hd
      rw [if_neg hlt, hd]
      exact ⟨c, rest ++ [Nat.digitChar (n % base)], rfl, hc⟩

/-- Digit values that denote a number in a base. -/
structure Denotes (base n : Nat) (values : List Nat) : Prop where
  range : ∀ value ∈ values, value < base
  value : numberOf base values = n

theorem Denotes.zeros_append {base n : Nat} {values : List Nat} (hb : 0 < base)
    (h : Denotes base n values) (count : Nat) :
    Denotes base n (List.replicate count 0 ++ values) := by
  refine ⟨fun value hm => ?_, by rw [numberOf_replicate_zero, h.value]⟩
  rcases List.mem_append.1 hm with hm | hm
  · rw [List.eq_of_mem_replicate hm]
    exact hb
  · exact h.range value hm

/-- **The digits of a number denote it, and there are no more of them than it takes**: a zero in
front stands alone. -/
theorem exists_numeral {base : Nat} (hb : 1 < base) (n : Nat) :
    ∃ values : List Nat, digits base n = values.map Nat.digitChar ∧
      Denotes base n values ∧ values ≠ [] ∧ (values.head? = some 0 → values = [0]) := by
  obtain ⟨values, hd, hall, hv⟩ := exists_digit_values hb n
  by_cases hn : n = 0
  · subst hn
    refine ⟨[0], digits_zero base, ⟨?_, by simp [numberOf]⟩, List.cons_ne_nil _ _, fun _ => rfl⟩
    exact List.forall_mem_singleton.2 (Nat.zero_lt_of_lt hb)
  · obtain ⟨c, rest, hcons, hc⟩ := head_digits hb hn
    rw [hd] at hcons
    refine ⟨values, hd, ⟨hall, hv⟩, ?_, ?_⟩
    · rintro rfl
      cases hcons
    · intro hzero
      obtain ⟨tail, rfl⟩ := List.head?_eq_some_iff.1 hzero
      exact absurd (List.cons.inj hcons).1.symm hc

/-! ## Hexadecimal digits -/

/-- Hexadecimal digits of a fixed width are read back. -/
theorem readHex_hex {width n : Nat} (h : (hex width n).length = width) (rest : List Char) :
    readHex width 0 (hex width n ++ rest) = some (n, rest) := by
  have hdigit : ∀ value < 16, Key.HexDigit (Nat.digitChar value) value := by decide
  obtain ⟨values, hd, hall, hv⟩ := exists_hex_values width n
  refine (readHex_eq_some_iff width 0 n _ rest).2 ⟨_, values, rfl, h, ?_, hv⟩
  rw [hd, List.forall₂_map_left_iff, List.forall₂_same]
  exact fun value hm => hdigit value (hall value hm)

/-- So are they in upper case. -/
theorem readHex_hex_toUpper {width n : Nat} (h : (hex width n).length = width) (rest : List Char) :
    readHex width 0 ((hex width n).map Char.toUpper ++ rest) = some (n, rest) := by
  have hdigit : ∀ value < 16, Key.HexDigit (Nat.digitChar value).toUpper value := by decide
  obtain ⟨values, hd, hall, hv⟩ := exists_hex_values width n
  refine (readHex_eq_some_iff width 0 n _ rest).2 ⟨_, values, rfl,
    by rw [List.length_map, h], ?_, hv⟩
  rw [hd, List.map_map, List.forall₂_map_left_iff, List.forall₂_same]
  exact fun value hm => hdigit value (hall value hm)

/-- So is a character of which they are the code. -/
theorem readHexChar_hex {width : Nat} {c : Char} (h : (hex width c.toNat).length = width)
    (rest : List Char) :
    readHexChar width (hex width c.toNat ++ rest) = some (c, rest) := by
  rw [readHexChar, readHex_hex h]
  simp only [(scalar?_eq_some_iff c.toNat c).2 rfl, Option.map_some]

/-- Four hexadecimal digits hold every control character. -/
theorem length_hex_control {n : Nat} (h : n < 0x80) : (hex 4 n).length = 4 :=
  length_hex (by decide) (Nat.lt_trans h (by decide))

end Sweep.Text
