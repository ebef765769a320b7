import Sweep.Number.Decimal

/-!
# Placing the point

How chosen digits become text. `Scientific.split` moves the point to its place and fills with zeros
where digits are missing, so the value stays the same; `Scientific.mantissa` leaves it after the
first digit. A number is laid out one way or the other by its exponent, and each place that writes
numbers says at which exponents it changes.
-/

set_option autoImplicit false

namespace Sweep

namespace Scientific

/-- The digits in front of and behind the point, without an exponent. -/
def split (s : Scientific) : List Char × List Char :=
  if s.exponent < 0 then (['0'], List.replicate (-s.exponent - 1).toNat '0' ++ s.digits)
  else
    let front := s.exponent.toNat + 1
    (s.digits.take front ++ List.replicate (front - s.digits.length) '0', s.digits.drop front)

/-- The digits with a point after the first, and no point after a single digit. -/
def mantissa (s : Scientific) : List Char :=
  match s.digits with
  | [] => []
  | [digit] => [digit]
  | digit :: rest => digit :: '.' :: rest

/-- The digits at their places, with at least one digit behind the point. -/
def plain (s : Scientific) : List Char :=
  match s.split with
  | (front, []) => front ++ ['.', '0']
  | (front, back) => front ++ '.' :: back

end Scientific

/-- A sign and the digits of an exponent, at least `width` of them. -/
def exponentText (width : Nat) (exponent : Int) : List Char :=
  let digits := Nat.toDigits 10 exponent.natAbs
  (if exponent < 0 then '-' else '+') :: (List.replicate (width - digits.length) '0' ++ digits)

/-- A whole number of units of the last of `places` digits behind the point. -/
def fixedText (places units : Nat) : List Char :=
  let digits := Nat.toDigits 10 units
  let digits := List.replicate (places + 1 - digits.length) '0' ++ digits
  let front := digits.length - places
  if places = 0 then digits else digits.take front ++ '.' :: digits.drop front

end Sweep
