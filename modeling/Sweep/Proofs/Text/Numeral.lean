import Mathlib.Algebra.Group.Nat.Defs
import Sweep.Text.Numeral

/-!
# What numerals denote

The digits of a number, read back in their base, give the number. A numeral is told here as the list
of its digit values, since that is what the grammars speak about; zeros filled in on the left change
neither the value nor the range of the digits.
-/

set_option autoImplicit false

namespace Sweep.Text

/-- The number that digit values denote in a base, most significant first. -/
def numberOf (base : Nat) (values : List Nat) :
    Nat := values.foldl (fun n value => n * base + value) 0

theorem numberOf_append_singleton (base : Nat) (values : List Nat) (last : Nat) :
    numberOf base (values ++ [last]) = numberOf base values * base + last := by
  simp [numberOf]

theorem numberOf_replicate_zero (base count : Nat) (values : List Nat) :
    numberOf base (List.replicate count 0 ++ values) = numberOf base values := by
  induction count with
  | zero => simp
  | succ count ih =>
    rw [← ih, List.replicate_succ, List.cons_append]
    simp [numberOf]

/-- **The digits of a number denote it.** -/
theorem exists_digit_values {base : Nat} (hb : 1 < base) (n : Nat) :
    ∃ values : List Nat, digits base n = values.map Nat.digitChar ∧
      (∀ value ∈ values, value < base) ∧ numberOf base values = n := by
  -- the last digit is the remainder, the digits before it are those of the quotient
  induction n using Nat.strongRecOn with
  | ind n ih =>
    rw [digits, Nat.toDigits_eq_if hb]
    by_cases hn : n < base
    · refine ⟨[n], by rw [if_pos hn]; rfl, ?_, ?_⟩
      · intro value hv
        rw [List.mem_singleton.1 hv]
        exact hn
      · simp [numberOf]
    · have hlt : n / base < n := Nat.div_lt_self (by omega) hb
      obtain ⟨values, hd, hall, hv⟩ := ih (n / base) hlt
      rw [digits] at hd
      refine ⟨values ++ [n % base], ?_, ?_, ?_⟩
      · rw [if_neg hn, hd, List.map_append, List.map_singleton]
      · intro value hm
        rcases List.mem_append.1 hm with hm | hm
        · exact hall value hm
        · rw [List.mem_singleton.1 hm]
          exact Nat.mod_lt n (by omega)
      · rw [numberOf_append_singleton, hv]
        exact Nat.div_add_mod' n base

theorem exists_hex_values (width n : Nat) :
    ∃ values : List Nat, hex width n = values.map Nat.digitChar ∧ (∀ value ∈ values, value < 16) ∧
      numberOf 16 values = n := by
  obtain ⟨values, hd, hall, hv⟩ := exists_digit_values (show 1 < 16 by decide) n
  refine ⟨List.replicate (width - values.length) 0 ++ values, ?_, ?_, ?_⟩
  · rw [hex, padLeft, hd, List.length_map, List.map_append, List.map_replicate]
    rfl
  · intro value hm
    rcases List.mem_append.1 hm with hm | hm
    · rw [List.eq_of_mem_replicate hm]
      decide
    · exact hall value hm
  · rw [numberOf_replicate_zero, hv]

theorem exists_of_mem_hex {width n : Nat} {c : Char} (h : c ∈ hex width n) :
    ∃ value < 16, Nat.digitChar value = c := by
  obtain ⟨values, hd, hall, -⟩ := exists_hex_values width n
  rw [hd] at h
  obtain ⟨value, hm, hc⟩ := List.mem_map.1 h
  exact ⟨value, hall value hm, hc⟩

theorem length_padLeft (fill : Char) {width : Nat} {cs : List Char} (h : cs.length ≤ width) :
    (padLeft fill width cs).length = width := by
  rw [padLeft, List.length_append, List.length_replicate]
  omega

/-- Numbers below a power of sixteen have just as many hexadecimal digits as are asked for. -/
theorem length_hex {width n : Nat} (hw : 0 < width) (h : n < 16 ^ width) :
    (hex width n).length = width := by
  refine length_padLeft '0' ?_
  rwa [digits, Nat.length_toDigits_le_iff (by decide) hw]

/-- Eight hexadecimal digits hold every character. -/
theorem length_hex_char (c : Char) : (hex 8 c.toNat).length = 8 := by
  have hc : c.toNat < 0x110000 := by
    rcases (show c.toNat.isValidChar from c.valid) with h | ⟨-, h⟩
    · exact Nat.lt_trans h (by decide)
    · exact h
  exact length_hex (by decide) (Nat.lt_trans hc (by decide))

end Sweep.Text
