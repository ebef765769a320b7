import Sweep.Number.Rounding

/-!
# Finite doubles

The numbers with a fraction that a document can hold: the **finite** values of the 64-bit binary
format, kept as sign, exponent field and fraction field. There is no infinity and no NaN among them,
so every one has an exact value `significand · 2 ^ scale`, and both zeros are there.

Reading rounds an exact ratio to the nearest double, a half to the even neighbour. The fields are
found in one step: counted from zero, the doubles of one sign are numbered in order by
`exponent · 2⁵² + fraction`, and a significand that rounds up past its binade carries into the
exponent by itself.
-/

set_option autoImplicit false

namespace Sweep

/-- A finite double. -/
structure Double where
  negative : Bool
  exponent : Fin 2047
  fraction : Fin 0x10000000000000
deriving DecidableEq

namespace Double

/-- Zero of either sign. -/
def zero (negative : Bool) : Double := ⟨negative, ⟨0, by decide⟩, ⟨0, by decide⟩⟩

instance : Inhabited Double := ⟨zero false⟩

/-- The whole number that `2 ^ scale` is multiplied with. -/
def significand (x : Double) : Nat :=
  if x.exponent.val = 0 then x.fraction.val else 0x10000000000000 + x.fraction.val

/-- The power of two that the significand counts. -/
def scale (x : Double) : Int :=
  if x.exponent.val = 0 then -1074 else (x.exponent.val : Int) - 1075

/-- The magnitude is `numerator / denominator`. -/
def numerator (x : Double) : Nat := x.significand * Nat.pow 2 x.scale.toNat

/-- The magnitude is `numerator / denominator`. -/
def denominator (x : Double) : Nat := Nat.pow 2 (-x.scale).toNat

def isZero (x : Double) : Bool := x.significand == 0

/-- The double with the given number in the order of magnitudes; `none` past the largest one. -/
def ofRank? (negative : Bool) (rank : Nat) : Option Double :=
  if h : rank / 0x10000000000000 < 2047 then
    some ⟨negative, ⟨rank / 0x10000000000000, h⟩,
      ⟨rank % 0x10000000000000, Nat.mod_lt _ (by decide)⟩⟩
  else none

/-- The scale at which the ratio `n / d` is rounded: 53 binary places, fewer below the normal
range. -/
def scaleOf (n d : Nat) : Int := max (binaryExponent n d - 52) (-1074)

/-- The double nearest to `n / d`, a half going to the even one; `none` if that is past the
largest. -/
def ofRatio? (negative : Bool) (n d : Nat) : Option Double :=
  if n = 0 then some (zero negative)
  else
    let scale := scaleOf n d
    let rounded := roundDiv (n * Nat.pow 2 (-scale).toNat) (d * Nat.pow 2 scale.toNat)
    ofRank? negative ((scale + 1074).toNat * 0x10000000000000 + rounded)

/-- The double nearest to `coefficient · 10 ^ exponent`. Exponents far outside the range of doubles
are decided by the digit count alone. -/
def ofDecimal? (negative : Bool) (coefficient : Nat) (exponent : Int) : Option Double :=
  if coefficient = 0 then some (zero negative)
  else
    let top : Int := (Nat.toDigits 10 coefficient).length + exponent
    if top < -330 then some (zero negative)
    else if 310 < top then none
    else ofRatio? negative (coefficient * Nat.pow 10 exponent.toNat) (Nat.pow 10 (-exponent).toNat)

def ofInt (n : Int) : Double := (ofRatio? (decide (n < 0)) n.natAbs 1).getD (zero false)

/-- The whole number that a double is, if it has no fraction. -/
def toInt? (x : Double) : Option Int :=
  if x.numerator % x.denominator = 0 then
    let magnitude : Int := (x.numerator / x.denominator : Nat)
    some (if x.negative then -magnitude else magnitude)
  else none

end Double

end Sweep
