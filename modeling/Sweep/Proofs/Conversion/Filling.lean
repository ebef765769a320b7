import Sweep.Conversion.Spelling

/-!
# Bringing a spelling to the width

A spelling is either filled with spaces on one side, or, if it is a number and the directive asks
for it, with zeros behind the sign. Without a width nothing is filled, and what is spelled does not
depend on the width (`spell_withoutWidth`), so a directive can be compared with the same one that
has none.
-/

set_option autoImplicit false

namespace Sweep.Directive

/-! ## Signs -/

/-- The characters that a directive puts for a sign. -/
def isSign (c : Char) : Bool := c == ' ' || c == '+' || c == '-'

theorem sign_cases (d : Directive) (negative : Bool) :
    d.sign negative = [] ∨ ∃ c, d.sign negative = [c] ∧ isSign c = true := by
  unfold sign
  split
  · exact .inr ⟨'-', rfl, rfl⟩
  · split
    · exact .inr ⟨'+', rfl, rfl⟩
    · split
      · exact .inr ⟨' ', rfl, rfl⟩
      · exact .inl rfl

/-! ## Spaces -/

theorem fillSpaces_left {d : Directive} (h : d.minus = true) (chars : List Char) :
    d.fillSpaces chars = chars ++ List.replicate (d.width.getD 0 - chars.length) ' ' := by
  rw [fillSpaces, if_pos h]

theorem fillSpaces_right {d : Directive} (h : d.minus = false) (chars : List Char) :
    d.fillSpaces chars = List.replicate (d.width.getD 0 - chars.length) ' ' ++ chars := by
  rw [fillSpaces, if_neg (by rw [h]; exact Bool.false_ne_true)]

/-- Spaces in front or behind, just up to the width. -/
theorem exists_fillSpaces (d : Directive) (chars : List Char) :
    ∃ front back : Nat,
      d.fillSpaces chars = List.replicate front ' ' ++ (chars ++ List.replicate back ' ') := by
  cases h : d.minus with
  | true => exact ⟨0, _, fillSpaces_left h chars⟩
  | false =>
    exact ⟨d.width.getD 0 - chars.length, 0,
      by rw [fillSpaces_right h, List.replicate_zero, List.append_nil]⟩

theorem length_fillSpaces (d : Directive) (chars : List Char) :
    (d.fillSpaces chars).length = max (d.width.getD 0) chars.length := by
  cases h : d.minus with
  | true =>
    rw [fillSpaces_left h, List.length_append, List.length_replicate]
    omega
  | false =>
    rw [fillSpaces_right h, List.length_append, List.length_replicate]
    omega

/-! ## Zeros -/

theorem fill_zeros {d : Directive} (hzero : d.zero = true) (hminus : d.minus = false)
    (negative : Bool) (digits : List Char) :
    d.fill (.number negative digits true) = d.sign negative ++
      (List.replicate (d.width.getD 0 - ((d.sign negative).length + digits.length)) '0' ++
        digits) := by
  rw [fill, if_pos (by rw [hzero, hminus]; rfl), List.append_assoc]

/-- Without one of the three conditions a number is filled with spaces, like a text. -/
theorem fill_spaces {d : Directive} {zeroFill : Bool}
    (h : ¬ (d.zero = true ∧ zeroFill = true ∧ d.minus = false)) (negative : Bool)
    (digits : List Char) :
    d.fill (.number negative digits zeroFill) = d.fillSpaces (d.sign negative ++ digits) := by
  rw [fill]
  refine if_neg fun hall => h ?_
  rw [Bool.and_eq_true, Bool.and_eq_true, Bool.not_eq_true'] at hall
  exact ⟨hall.1.1, hall.1.2, hall.2⟩

/-- A number is filled with spaces on one side, or with zeros behind the sign, just up to the
width. -/
theorem fill_number (d : Directive) (negative : Bool) (digits : List Char) (zeroFill : Bool) :
    ∃ front zeros back : Nat,
      d.fill (.number negative digits zeroFill) = List.replicate front ' ' ++ (d.sign negative ++
        (List.replicate zeros '0' ++ digits ++ List.replicate back ' ')) ∧
      front + (d.sign negative).length + (zeros + digits.length) + back =
        max (d.width.getD 0) ((d.sign negative).length + digits.length) ∧
      (zeros ≠ 0 → d.zero = true ∧ zeroFill = true ∧ d.minus = false ∧ front = 0 ∧ back = 0) ∧
      (d.minus = true → front = 0) ∧ (d.minus = false → back = 0) := by
  by_cases hall : d.zero = true ∧ zeroFill = true ∧ d.minus = false
  · obtain ⟨hzero, rfl, hminus⟩ := hall
    refine ⟨0, d.width.getD 0 - ((d.sign negative).length + digits.length), 0, ?_, ?_,
      fun _ => ⟨hzero, rfl, hminus, rfl, rfl⟩, fun _ => rfl, fun _ => rfl⟩
    · rw [fill_zeros hzero hminus, List.replicate_zero, List.nil_append, List.append_nil]
    · omega
  · rw [fill_spaces hall]
    cases hminus : d.minus with
    | true =>
      refine ⟨0, 0, d.width.getD 0 - (d.sign negative ++ digits).length, ?_, ?_,
        fun hne => absurd rfl hne, fun _ => rfl, nofun⟩
      · rw [fillSpaces_left hminus, List.replicate_zero, List.replicate_zero, List.nil_append,
          List.nil_append, List.append_assoc]
      · rw [List.length_append]
        omega
    | false =>
      refine ⟨d.width.getD 0 - (d.sign negative ++ digits).length, 0, 0, ?_, ?_,
        fun hne => absurd rfl hne, nofun, fun _ => rfl⟩
      · rw [fillSpaces_right hminus, List.replicate_zero, List.replicate_zero, List.nil_append,
          List.append_nil]
      · rw [List.length_append]
        omega

/-! ## The same directive without a width -/

def withoutWidth (d : Directive) : Directive := { d with width := none }

@[simp] theorem withoutWidth_width (d : Directive) : d.withoutWidth.width = none := rfl

@[simp] theorem sign_withoutWidth (d : Directive) (negative : Bool) :
    d.withoutWidth.sign negative = d.sign negative := rfl

/-- The spelling does not depend on the width. -/
theorem spell_withoutWidth (d : Directive) (v : Value) : d.withoutWidth.spell v = d.spell v := rfl

theorem fillSpaces_withoutWidth (d : Directive) (chars : List Char) :
    d.withoutWidth.fillSpaces chars = chars := by
  cases h : d.withoutWidth.minus with
  | true =>
    rw [fillSpaces_left h, withoutWidth_width, Option.getD_none, Nat.zero_sub, List.replicate_zero,
      List.append_nil]
  | false =>
    rw [fillSpaces_right h, withoutWidth_width, Option.getD_none, Nat.zero_sub, List.replicate_zero,
      List.nil_append]

theorem fill_text_withoutWidth (d : Directive) (chars : List Char) :
    d.withoutWidth.fill (.text chars) = chars :=
  d.fillSpaces_withoutWidth chars

/-- A number without a width is its sign and its digits. -/
theorem fill_number_withoutWidth (d : Directive) (negative : Bool) (digits : List Char)
    (zeroFill : Bool) :
    d.withoutWidth.fill (.number negative digits zeroFill) = d.sign negative ++ digits := by
  by_cases h : d.withoutWidth.zero = true ∧ zeroFill = true ∧ d.withoutWidth.minus = false
  · obtain ⟨hzero, rfl, hminus⟩ := h
    rw [fill_zeros hzero hminus, withoutWidth_width, Option.getD_none, Nat.zero_sub,
      List.replicate_zero, List.nil_append, sign_withoutWidth]
  · rw [fill_spaces h, fillSpaces_withoutWidth, sign_withoutWidth]

end Sweep.Directive
