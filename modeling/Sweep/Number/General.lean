import Sweep.Number.Layout

/-!
# The general form of a double

The form in which a number stands in a path: **as short as it can be**. Without a precision it takes
the fewest digits that read back, with one that many digits, rounded; zeros at the end go unless
they are asked for. Very small and very large numbers are written with an exponent, all others at
their places, and the change-over depends on the exponent alone.
-/

set_option autoImplicit false

namespace Sweep

namespace Scientific

/-- With an exponent of at least two digits behind the mantissa. -/
def withExponent (s : Scientific) : List Char := s.mantissa ++ 'e' :: exponentText 2 s.exponent

/-- At its places, the point only if digits follow it. -/
def positional (s : Scientific) : List Char :=
  match s.split with
  | (front, []) => front
  | (front, back) => front ++ '.' :: back

end Scientific

namespace Double

/-- The digits that the general form shows; `keepZeros` keeps zeros at the end. -/
def generalDigits (x : Double) (precision : Option Nat) (keepZeros : Bool) : Scientific :=
  let s := match precision with
    | some p => x.significant (max p 1)
    | none => x.shortest .upward
  if keepZeros then s else ⟨trimZeros s.digits, s.exponent⟩

/-- The first exponent that is written out. A precision that the digits do not use up counts for no
more than the digits, as long as they reach the point. -/
def generalLimit (precision : Option Nat) (s : Scientific) : Int :=
  match precision with
  | none => 6
  | some p =>
    let p := max p 1
    if s.digits.length < p ∧ s.exponent + 1 ≤ s.digits.length then s.digits.length else p

def generalMagnitude (x : Double) (precision : Option Nat) (keepZeros : Bool) : List Char :=
  let s := x.generalDigits precision keepZeros
  if s.exponent < -4 ∨ generalLimit precision s ≤ s.exponent then s.withExponent else s.positional

/-- The general form, with a minus sign for negative numbers and for minus zero. -/
def general (x : Double) (precision : Option Nat) (keepZeros : Bool) : List Char :=
  let body := x.generalMagnitude precision keepZeros
  if x.negative then '-' :: body else body

end Double

end Sweep
