import Sweep.Conversion.Directive

/-!
# The grammar of conversions

The texts of conversions, told without a reader: which text stands for which conversion. A
conversion is literal text, a percent sign, a directive and literal text again.

* `LiteralText` : text in which every percent sign is doubled, with the text it stands for
* `WidthText`, `PrecisionText` : the two numbers of a directive, each of which can be left out
* `DirectiveText` : what stands after the percent sign, up to the letter of the verb
* `ConversionText` : all of it

A zero belongs to the flags if it can: the flags are **all** the flag characters there are, so no
width begins with a zero. That this leaves one way only to cut a text follows from the reader
agreeing with the grammar (`Sweep.Proofs.Conversion.Reading`).
-/

set_option autoImplicit false

namespace Sweep.Conversion

/-- Literal text as it is written, with the text it stands for. -/
inductive LiteralText : List Char → List Char → Prop where
  | nil : LiteralText [] []
  | plain {c : Char} {source text : List Char} : c ≠ '%' → LiteralText source text →
      LiteralText (c :: source) (c :: text)
  | percent {source text : List Char} : LiteralText source text →
      LiteralText ('%' :: '%' :: source) ('%' :: text)

/-- Digits and nothing else. -/
def Digits (cs : List Char) : Prop := ∀ c ∈ cs, Text.isAsciiDigit c = true

/-- The number that digits stand for; the largest one stands for all that are larger. -/
def cappedNumber (cs : List Char) : Nat := min (Text.decimalNumber cs) limit

/-- The text of a width. -/
inductive WidthText : List Char → Option Nat → Prop where
  | absent : WidthText [] none
  | digits {cs : List Char} : cs ≠ [] → Digits cs → WidthText cs (some (cappedNumber cs))

/-- The text of a precision; a bare point stands for zero. -/
inductive PrecisionText : List Char → Option Nat → Prop where
  | absent : PrecisionText [] none
  | point {cs : List Char} : Digits cs → PrecisionText ('.' :: cs) (some (cappedNumber cs))

/-- The characters of flags. -/
def flagChars : List Char := ['-', '+', ' ', '0', '#']

/-- The text of a directive after its percent sign. -/
def DirectiveText (cs : List Char) (d : Directive) : Prop :=
  ∃ flags width precision : List Char, cs = flags ++ (width ++ (precision ++ [d.verb.letter])) ∧
    (∀ c ∈ flags, c ∈ flagChars) ∧
    (∀ c ∈ (width ++ (precision ++ [d.verb.letter])).head?, c ∉ flagChars) ∧
    (d.minus = true ↔ '-' ∈ flags) ∧ (d.plus = true ↔ '+' ∈ flags) ∧
    (d.space = true ↔ ' ' ∈ flags) ∧ (d.zero = true ↔ '0' ∈ flags) ∧
    (d.sharp = true ↔ '#' ∈ flags) ∧ WidthText width d.width ∧ PrecisionText precision d.precision

/-- The text of a conversion. -/
def ConversionText (cs : List Char) (c : Conversion) : Prop :=
  ∃ front source back : List Char, cs = front ++ '%' :: (source ++ back) ∧
    LiteralText front c.before.toList ∧ DirectiveText source c.directive ∧
    LiteralText back c.after.toList

end Sweep.Conversion
