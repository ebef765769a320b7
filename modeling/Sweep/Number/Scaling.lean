import Sweep.Number.Double

/-!
# Doubles by scaling

A quick way from decimal digits to a double, and the one that JSON numbers are read by: the digits
are gathered in 64 bits, the result becomes a double, and **one multiplication or division** by a
double power of ten brings it to its place. Each of these steps rounds to nearest, so the result is
the nearest double for up to fifteen digits and small exponents, and may be a neighbour of it beyond
that.
-/

set_option autoImplicit false

namespace Sweep.Double

/-- The product of two magnitudes, rounded to nearest; `none` if it is past the largest double. -/
def times? (x y : Double) : Option Double :=
  ofRatio? false (x.numerator * y.numerator) (x.denominator * y.denominator)

/-- The quotient of two magnitudes, rounded to nearest; `y` is not zero. -/
def over? (x y : Double) : Option Double :=
  ofRatio? false (x.numerator * y.denominator) (x.denominator * y.numerator)

/-- The largest power of ten that a double comes near to. -/
def topPower : Nat := 308

/-- The double nearest to a power of ten, for exponents up to `topPower`. -/
def power (exponent : Nat) : Double := (ofDecimal? false 1 exponent).getD (zero false)

/-- A magnitude times a power of ten. Exponents out of range are brought nearer in steps of
`topPower`; two steps take any number of 64 bits to zero. -/
def scale? : (steps : Nat) → Double → Int → Option Double
  | steps, x, exponent =>
    if exponent.natAbs ≤ topPower then
      if 0 ≤ exponent then x.times? (power exponent.natAbs) else x.over? (power exponent.natAbs)
    else if x.isZero then some x
    else if 0 ≤ exponent then none
    else
      match steps, x.over? (power topPower) with
      | steps + 1, some x => scale? steps x (exponent + topPower)
      | _, _ => some (zero false)

def ofScaled? (negative : Bool) (coefficient : Nat) (exponent : Int) : Option Double :=
  match ofRatio? false coefficient 1 with
  | none => none
  | some x => (scale? 3 x exponent).map fun x => { x with negative }

end Sweep.Double
