import Sweep.Number.Double

/-!
# Decimal digits of a double

Two ways to choose the digits of a double, and nothing yet about how they are laid out:

* `significant count x` — the given number of digits, the last one rounded from the **exact** value,
  a half to the even neighbour;
* `shortest tie x` — the **fewest digits that read back** as the same double, and among those the
  ones nearest to it. On each decimal grid only the two neighbours of the exact value can be
  nearest, so they are the only candidates. `tie` decides between two that are equally near.

Both give the digits in the form `d.ddd · 10 ^ exponent`.
-/

set_option autoImplicit false

namespace Sweep

/-- Digits with the point after the first of them, times a power of ten. -/
structure Scientific where
  digits : List Char
  exponent : Int
deriving DecidableEq, Repr

/-- Which of two equally near candidates is chosen. -/
inductive Tie where
  | toEven
  | upward
deriving DecidableEq, Repr

/-- Zeros dropped at the end, the first digit kept whatever it is. -/
def trimZeros : List Char → List Char
  | [] => []
  | first :: rest => first :: (rest.reverse.dropWhile (· == '0')).reverse

namespace Scientific

def zero : Scientific := ⟨['0'], 0⟩

/-- `coefficient · 10 ^ exponent`, zeros at the end dropped. -/
def ofCoefficient (coefficient : Nat) (exponent : Int) : Scientific :=
  let digits := Nat.toDigits 10 coefficient
  ⟨trimZeros digits, exponent + digits.length - 1⟩

end Scientific

namespace Double

/-- The magnitude in units of `10 ^ grid`, as a ratio. -/
def onGrid (x : Double) (grid : Int) : Nat × Nat :=
  (x.numerator * Nat.pow 10 (-grid).toNat, x.denominator * Nat.pow 10 grid.toNat)

/-- The first `count` digits of the magnitude, rounded to nearest; `count` is positive. -/
def significant (count : Nat) (x : Double) : Scientific :=
  if x.isZero then ⟨List.replicate count '0', 0⟩
  else
    let exponent := decimalExponent x.numerator x.denominator
    let (n, d) := x.onGrid (exponent + 1 - count)
    let rounded := roundDiv n d
    if rounded = Nat.pow 10 count then ⟨Nat.toDigits 10 (Nat.pow 10 (count - 1)), exponent + 1⟩
    else ⟨Nat.toDigits 10 rounded, exponent⟩

/-- The magnitude rounded to `places` digits after the point, in units of the last place. -/
def rounded (places : Nat) (x : Double) : Nat :=
  roundDiv (x.numerator * Nat.pow 10 places) x.denominator

/-- Whether `coefficient · 10 ^ exponent` is read as the magnitude of `x`. -/
def readsBack (x : Double) (coefficient : Nat) (exponent : Int) : Bool :=
  decide (ofDecimal? x.negative coefficient exponent = some x)

/-- The neighbour on the grid `10 ^ grid` that reads back, the nearer one if both do. -/
def nearestOnGrid? (tie : Tie) (x : Double) (grid : Int) : Option Nat :=
  let (n, d) := x.onGrid grid
  let low := n / d
  match x.readsBack low grid, x.readsBack (low + 1) grid with
  | true, false => some low
  | false, true => some (low + 1)
  | false, false => none
  | true, true =>
    let rest := 2 * (n % d)
    if rest < d then some low
    else if d < rest then some (low + 1)
    else match tie with
      | .upward => some (low + 1)
      | .toEven => some (if low % 2 = 0 then low else low + 1)

/-- The coarsest of the next `steps` grids, from `10 ^ grid` downward, on which a candidate reads
back. -/
def coarsest? (tie : Tie) (x : Double) : (steps : Nat) → (grid : Int) → Option Scientific
  | 0, _ => none
  | steps + 1, grid =>
    match nearestOnGrid? tie x grid with
    | some coefficient => some (.ofCoefficient coefficient grid)
    | none => coarsest? tie x steps (grid - 1)

/-- The exact value of the magnitude, which a double always has in decimal. -/
def exact (x : Double) : Scientific :=
  .ofCoefficient (x.numerator * Nat.pow 5 (-x.scale).toNat) (-(-x.scale).toNat)

/-- The fewest digits that read back as the magnitude of `x`, and among those the nearest ones.
Seventeen digits always suffice; should none of that many read back, the exact value is given. -/
def shortest (tie : Tie) (x : Double) : Scientific :=
  if x.isZero then .zero
  else (coarsest? tie x 17 (decimalExponent x.numerator x.denominator)).getD x.exact

end Double

end Sweep
