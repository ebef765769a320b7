/-!
# Exact ratios

A number to be written or read is a **ratio of naturals**, `n / d` with `d` positive; nothing is
rounded before the one place where the result is. This module holds the three questions asked about
a ratio: its nearest whole number, and how many binary or decimal places it has in front of the
point.
-/

set_option autoImplicit false

namespace Sweep

/-- The whole number nearest to `n / d`; a half goes to the even neighbour. -/
def roundDiv (n d : Nat) : Nat :=
  let quotient := n / d
  let rest := n % d
  if 2 * rest < d then quotient
  else if d < 2 * rest then quotient + 1
  else if quotient % 2 = 0 then quotient
  else quotient + 1

/-- Whether `base ^ exponent ≤ n / d`, by cross-multiplication. -/
def reaches (base : Nat) (exponent : Int) (n d : Nat) : Bool :=
  decide (d * Nat.pow base exponent.toNat ≤ n * Nat.pow base (-exponent).toNat)

/-- The exponent `e` with `2 ^ e ≤ n / d < 2 ^ (e + 1)`, for a positive ratio. -/
def binaryExponent (n d : Nat) : Int :=
  let guess : Int := (n.log2 : Int) - d.log2
  if reaches 2 guess n d then guess else guess - 1

/-- The exponent `e` with `10 ^ e ≤ n / d < 10 ^ (e + 1)`, for a positive ratio. The two digit
counts leave only two candidates. -/
def decimalExponent (n d : Nat) : Int :=
  let guess : Int := ((Nat.toDigits 10 n).length : Int) - (Nat.toDigits 10 d).length
  if reaches 10 guess n d then guess else guess - 1

end Sweep
