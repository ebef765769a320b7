import Sweep.Proofs.Number.Ratios
import Sweep.Proofs.Text.Decimal

/-!
# Decimal numerals

A number in a text, told by its parts: a sign, digits in front of the point, digits behind it, an
exponent of ten. The parts say what the number is (`Numeral.magnitude`) and which double is next to
it (`Numeral.double?`).

`Numeral.read?` takes a text apart. There is one way only to do so, and **a text that was put
together from digits is taken apart into the same parts** (`read?_append`), so a number can be
followed through its text.
-/

set_option autoImplicit false

namespace Sweep

/-- A decimal number by the parts of its text. -/
structure Numeral where
  negative : Bool
  front : List Char
  /-- the digits behind the point, if there is a point -/
  fraction : Option (List Char)
  /-- whether the exponent is negative, and its digits, if there is one -/
  exponent : Option (Bool × List Char)
deriving DecidableEq, Repr

namespace Numeral

/-! ## Text and number -/

def fractionText : Option (List Char) → List Char
  | none => []
  | some digits => '.' :: digits

def powerText : Option (Bool × List Char) → List Char
  | none => []
  | some (negative, digits) => 'e' :: (if negative then '-' else '+') :: digits

/-- The text behind the sign. -/
def magnitudeText (n : Numeral) :
    List Char := n.front ++ (fractionText n.fraction ++ powerText n.exponent)

def text (n : Numeral) : List Char := if n.negative then '-' :: n.magnitudeText else n.magnitudeText

/-- Digits stand where digits belong, and at least one in front of the point and in an exponent. -/
structure WellFormed (n : Numeral) : Prop where
  front_ne_nil : n.front ≠ []
  front : ∀ c ∈ n.front, Text.isAsciiDigit c = true
  fraction : ∀ digits ∈ n.fraction, ∀ c ∈ digits, Text.isAsciiDigit c = true
  exponent_ne_nil : ∀ e ∈ n.exponent, e.2 ≠ []
  exponent : ∀ e ∈ n.exponent, ∀ c ∈ e.2, Text.isAsciiDigit c = true

/-- The digits behind the point. -/
def decimals (n : Numeral) : List Char := n.fraction.getD []

/-- The exponent as a number. -/
def power (n : Numeral) : Int :=
  match n.exponent with
  | none => 0
  | some (negative, digits) =>
    if negative then -(Text.decimalNumber digits : Int) else Text.decimalNumber digits

/-- What the numeral denotes, without its sign. -/
def magnitude (n : Numeral) :
    ℚ := Text.decimalNumber (n.front ++ n.decimals) * 10 ^ (n.power - n.decimals.length)

/-- The double next to what the numeral denotes. -/
def double? (n : Numeral) : Option Double :=
  Double.ofDecimal? n.negative (Text.decimalNumber (n.front ++ n.decimals))
    (n.power - n.decimals.length)

/-- Zeros in front of a number change nothing. -/
theorem double?_zeros (n : Numeral) (count : Nat) :
    ({ n with front := List.replicate count '0' ++ n.front } : Numeral).double? = n.double? := by
  have hnumber : Text.decimalNumber (List.replicate count '0' ++ n.front ++ n.decimals) =
      Text.decimalNumber (n.front ++ n.decimals) := by
    rw [List.append_assoc, Text.decimalNumber_append, Text.decimalNumber_replicate_zero,
      Nat.zero_mul, Nat.zero_add]
  show Double.ofDecimal? n.negative
    (Text.decimalNumber (List.replicate count '0' ++ n.front ++ n.decimals)) _ = _
  rw [hnumber]
  rfl

/-! ## Reading -/

/-- A sign at the front, plus where there is none, and the text after it. -/
def readSign : List Char → Bool × List Char
  | '-' :: rest => (true, rest)
  | '+' :: rest => (false, rest)
  | cs => (false, cs)

def readFraction : List Char → Option (List Char) × List Char
  | '.' :: rest => (some (rest.takeWhile Text.isAsciiDigit), rest.dropWhile Text.isAsciiDigit)
  | cs => (none, cs)

/-- The exponent, which must reach to the end of the text. -/
def readPower : List Char → Option (Option (Bool × List Char))
  | [] => some none
  | 'e' :: rest =>
    let (negative, digits) := readSign rest
    if digits ≠ [] ∧ digits.all Text.isAsciiDigit = true then some (some (negative, digits))
    else none
  | _ => none

/-- The parts of a text that is a numeral as a whole. -/
def read? (cs : List Char) : Option Numeral :=
  let (negative, rest) := readSign cs
  match rest.takeWhile Text.isAsciiDigit with
  | [] => none
  | front =>
    let (fraction, rest) := readFraction (rest.dropWhile Text.isAsciiDigit)
    (readPower rest).map fun exponent => ⟨negative, front, fraction, exponent⟩

/-- The double that a text stands for. -/
def readDouble? (cs : List Char) : Option Double := (read? cs).bind double?

theorem readPower_powerText {exponent : Option (Bool × List Char)} (hne : ∀ e ∈ exponent, e.2 ≠ [])
    (hd : ∀ e ∈ exponent, ∀ c ∈ e.2, Text.isAsciiDigit c = true) :
    readPower (powerText exponent) = some exponent := by
  cases exponent with
  | none => rfl
  | some e =>
    obtain ⟨negative, digits⟩ := e
    have hdigits : digits ≠ [] ∧ digits.all Text.isAsciiDigit = true :=
      ⟨hne _ rfl, List.all_eq_true.2 (hd _ rfl)⟩
    cases negative with
    | true => simp only [powerText, if_true, readPower, readSign, if_pos hdigits]
    | false =>
      simp only [powerText, Bool.false_eq_true, if_false, readPower, readSign, if_pos hdigits]

theorem head_powerText (exponent : Option (Bool × List Char)) :
    ∀ c ∈ (powerText exponent).head?, c = 'e' := by
  cases exponent with
  | none => exact fun c hc => absurd hc (by simp [powerText])
  | some e =>
    intro c hc
    exact (Option.some.inj hc).symm

theorem readFraction_fractionText {fraction : Option (List Char)}
    (hd : ∀ digits ∈ fraction, ∀ c ∈ digits, Text.isAsciiDigit c = true) {rest : List Char}
    (hr : ∀ c ∈ rest.head?, c = 'e') :
    readFraction (fractionText fraction ++ rest) = (fraction, rest) := by
  cases fraction with
  | none =>
    cases rest with
    | nil => rfl
    | cons c tail =>
      have hc : c = 'e' := hr c rfl
      rw [hc]
      rfl
  | some digits =>
    have hends : ∀ c ∈ rest.head?, Text.isAsciiDigit c = false := by
      intro c hc
      rw [hr c hc]
      rfl
    obtain ⟨htake, hdrop⟩ := Key.span_run (hd digits rfl) hends
    simp only [fractionText, List.cons_append, readFraction, htake, hdrop]

/-- **A text that was put together from digits is taken apart into the same parts**, whichever way
its sign is written. -/
theorem read?_append {n : Numeral} (h : n.WellFormed) (sign : List Char)
    (hs : readSign (sign ++ n.magnitudeText) = (n.negative, n.magnitudeText)) :
    read? (sign ++ n.magnitudeText) = some n := by
  have hends : ∀ c ∈ (fractionText n.fraction ++ powerText n.exponent).head?,
      Text.isAsciiDigit c = false := by
    intro c hc
    cases hf : n.fraction with
    | none =>
      rw [hf] at hc
      rw [head_powerText n.exponent c hc]
      rfl
    | some digits =>
      rw [hf] at hc
      rw [← Option.some.inj hc]
      rfl
  obtain ⟨htake, hdrop⟩ := Key.span_run h.front hends
  unfold read?
  rw [hs, magnitudeText]
  simp only [htake, hdrop, readFraction_fractionText h.fraction (head_powerText n.exponent),
    readPower_powerText h.exponent_ne_nil h.exponent]
  split
  · next hnil => exact absurd hnil h.front_ne_nil
  · rfl

/-- The text behind the sign begins with a digit. -/
theorem WellFormed.head_magnitudeText {n : Numeral} (h : n.WellFormed) :
    ∃ c rest, n.magnitudeText = c :: rest ∧ Text.isAsciiDigit c = true := by
  obtain ⟨c, rest, hf⟩ := List.exists_cons_of_ne_nil h.front_ne_nil
  refine ⟨c, rest ++ (fractionText n.fraction ++ powerText n.exponent), ?_,
    h.front c (hf ▸ List.mem_cons_self)⟩
  rw [magnitudeText, hf, List.cons_append]

/-- A digit is no sign. -/
theorem readSign_digit {c : Char} (hc : Text.isAsciiDigit c = true) (rest : List Char) :
    readSign (c :: rest) = (false, c :: rest) := by
  rw [readSign.eq_def]
  split
  · next heq => exact absurd (List.cons.inj heq).1 (Text.ne_of_digit hc rfl)
  · next heq => exact absurd (List.cons.inj heq).1 (Text.ne_of_digit hc rfl)
  · rfl

/-- A numeral is read from its text. -/
theorem read?_text {n : Numeral} (h : n.WellFormed) : read? n.text = some n := by
  obtain ⟨c, rest, htext, hc⟩ := h.head_magnitudeText
  cases hn : n.negative with
  | true =>
    have hread := read?_append h ['-'] (by rw [hn]; rfl)
    rwa [text, if_pos hn]
  | false =>
    have hread := read?_append h [] (by rw [List.nil_append, htext, readSign_digit hc, hn])
    rw [text, if_neg (by rw [hn]; exact Bool.false_ne_true)]
    exact hread

end Numeral

end Sweep
