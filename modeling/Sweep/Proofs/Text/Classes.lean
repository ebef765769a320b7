import Sweep.Key

/-!
# Character classes

The classes of the key grammar and how they lie to each other. A digit and a character that opens an
identifier are both characters that an identifier can go on with; white space is not, which is a
fact about the tables of the Unicode standard. So wherever an identifier can go on, neither white
space nor a separator nor a quote stands.
-/

set_option autoImplicit false

namespace Sweep

namespace Text

/-! ## Tables -/

theorem exists_range_of_covers {ranges : List (Nat × Nat)} {n : Nat} (h : covers ranges n = true) :
    ∃ range ∈ ranges, range.1 ≤ n ∧ n ≤ range.2 := by
  induction ranges with
  | nil => exact absurd h (by simp [covers])
  | cons range rest ih =>
    rw [covers] at h
    split at h
    · exact absurd h (by simp)
    · rename_i hlow
      split at h
      · rename_i hhigh
        exact ⟨range, List.mem_cons_self, Nat.le_of_not_lt hlow, hhigh⟩
      · obtain ⟨found, hf, hn⟩ := ih h
        exact ⟨found, List.mem_cons_of_mem _ hf, hn⟩

theorem covers_eq_false {ranges others : List (Nat × Nat)}
    (hd : ∀ range ∈ ranges, ∀ other ∈ others, range.2 < other.1 ∨ other.2 < range.1) {n : Nat}
    (h : covers ranges n = true) : covers others n = false := by
  rw [← Bool.not_eq_true]
  intro ho
  obtain ⟨range, hr, hlow, hhigh⟩ := exists_range_of_covers h
  obtain ⟨other, hm, hlow', hhigh'⟩ := exists_range_of_covers ho
  rcases hd range hr other hm with hlt | hlt <;> omega

theorem not_alphabetic_of_blank {c : Char} (h : isBlank c = true) : isAlphabetic c = false :=
  covers_eq_false (by decide +kernel) h

/-- White space is neither a letter nor a number. -/
theorem not_alphanumeric_of_blank {c : Char} (h : isBlank c = true) : isAlphanumeric c = false := by
  rw [isAlphanumeric, not_alphabetic_of_blank h, Bool.false_or]
  exact covers_eq_false (by decide +kernel) h

theorem isAsciiDigit_iff (c : Char) : isAsciiDigit c = true ↔ 48 ≤ c.toNat ∧ c.toNat ≤ 57 := by
  rw [isAsciiDigit, Bool.and_eq_true, decide_eq_true_eq, decide_eq_true_eq]
  rfl

theorem alphanumeric_of_digit {c : Char} (h : isAsciiDigit c = true) : isAlphanumeric c = true := by
  obtain ⟨hlow, hhigh⟩ := (isAsciiDigit_iff c).1 h
  have hn : covers numericRanges c.toNat = true := by
    rw [numericRanges, covers, if_neg (by omega), if_pos hhigh]
  rw [isAlphanumeric, hn, Bool.or_true]

theorem not_alphabetic_of_digit {c : Char} (h : isAsciiDigit c = true) :
    isAlphabetic c = false := by
  obtain ⟨-, hhigh⟩ := (isAsciiDigit_iff c).1 h
  rw [isAlphabetic, alphabeticRanges, covers, if_pos (by omega)]

end Text

namespace Key

/-! ## The characters of bare segments -/

theorem part_of_start {c : Char} (h : isIdentifierStart c = true) : isIdentifierPart c = true := by
  rw [isIdentifierStart, Bool.or_eq_true] at h
  rw [isIdentifierPart, Bool.or_eq_true]
  rcases h with h | h
  · exact .inl h
  · right
    rw [Text.isAlphanumeric, h, Bool.true_or]

theorem part_of_digit {c : Char} (h : Text.isAsciiDigit c = true) : isIdentifierPart c = true := by
  rw [isIdentifierPart, Text.alphanumeric_of_digit h, Bool.or_true]

theorem not_digit_of_start {c : Char} (h : isIdentifierStart c = true) :
    Text.isAsciiDigit c = false := by
  rw [← Bool.not_eq_true]
  intro hd
  rw [isIdentifierStart, Text.not_alphabetic_of_digit hd, Bool.or_false, beq_iff_eq] at h
  rw [h] at hd
  exact absurd hd (by decide)

theorem not_part_of_blank {c : Char} (h : Text.isBlank c = true) : isIdentifierPart c = false := by
  rw [isIdentifierPart, Text.not_alphanumeric_of_blank h, Bool.or_false, beq_eq_false_iff_ne]
  rintro rfl
  exact absurd h (by decide)

/-- **Where an identifier can go on**, there is no white space and no dot, comma or quote. -/
theorem plain_of_part {c : Char} (h : isIdentifierPart c = true) :
    Text.isBlank c = false ∧ c ≠ '.' ∧ c ≠ ',' ∧ c ≠ '"' := by
  refine ⟨?_, ?_, ?_, ?_⟩
  · rw [← Bool.not_eq_true]
    intro hb
    rw [not_part_of_blank hb] at h
    exact absurd h (by simp)
  all_goals
    rintro rfl
    exact absurd h (by decide +kernel)

end Key

end Sweep
