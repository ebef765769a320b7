/-!
# Numerals in a base

Digits are written most significant first, in lower case above nine. `padLeft` brings a numeral to a
least width; it never cuts.
-/

set_option autoImplicit false

namespace Sweep.Text

/-- The digits of `n` in `base` (two to sixteen), most significant first; zero has one digit. -/
def digits (base n : Nat) : List Char := Nat.toDigits base n

/-- Fill with `fill` on the left until there are `width` characters. -/
def padLeft (fill : Char) (width : Nat) (cs : List Char) : List Char :=
  List.replicate (width - cs.length) fill ++ cs

/-- The lower-case hexadecimal digits of `n`, at least `width` of them. -/
def hex (width n : Nat) : List Char := padLeft '0' width (digits 16 n)

/-- The value of a hexadecimal digit of either case. -/
def hexValue? (c : Char) : Option Nat :=
  if '0' ≤ c ∧ c ≤ '9' then some (c.toNat - '0'.toNat)
  else if 'a' ≤ c ∧ c ≤ 'f' then some (c.toNat - 'a'.toNat + 10)
  else if 'A' ≤ c ∧ c ≤ 'F' then some (c.toNat - 'A'.toNat + 10)
  else none

def decimalValue? (c : Char) : Option Nat :=
  if '0' ≤ c ∧ c ≤ '9' then some (c.toNat - '0'.toNat) else none

/-- The number that decimal digits denote; characters that are no digits count as zero. -/
def decimalNumber (cs : List Char) :
    Nat := cs.foldl (fun n c => n * 10 + (decimalValue? c).getD 0) 0

/-- The character with this code point; surrogates and numbers past U+10FFFF have none. -/
def scalar? (n : Nat) : Option Char := if n.isValidChar then some (Char.ofNat n) else none

/-- Exactly `count` hexadecimal digits, as a number, and the text after them. -/
def readHex : (count : Nat) → (value : Nat) → List Char → Option (Nat × List Char)
  | 0, value, cs => some (value, cs)
  | count + 1, value, c :: cs =>
    match hexValue? c with
    | some d => readHex count (value * 16 + d) cs
    | none => none
  | _ + 1, _, [] => none

/-- The character that exactly `count` hexadecimal digits name, and the text after them. -/
def readHexChar (count : Nat) (cs : List Char) : Option (Char × List Char) :=
  match readHex count 0 cs with
  | some (n, rest) => (scalar? n).map (·, rest)
  | none => none

theorem length_readHex {count value n : Nat} {cs rest : List Char}
    (h : readHex count value cs = some (n, rest)) : rest.length + count = cs.length := by
  induction count generalizing value cs with
  | zero => simp only [readHex, Option.some.injEq, Prod.mk.injEq] at h; simp [h.2]
  | succ count ih =>
    cases cs with
    | nil => simp [readHex] at h
    | cons c cs =>
      simp only [readHex] at h
      split at h
      · have := ih h; simp only [List.length_cons]; omega
      · cases h

theorem length_readHexChar {count : Nat} {cs rest : List Char} {c : Char}
    (h : readHexChar count cs = some (c, rest)) : rest.length + count = cs.length := by
  unfold readHexChar at h
  split at h
  · rename_i n r hr
    obtain ⟨x, -, hx⟩ := Option.map_eq_some_iff.1 h
    cases hx
    exact length_readHex hr
  · cases h

end Sweep.Text
