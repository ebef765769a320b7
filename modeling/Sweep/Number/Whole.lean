/-!
# Whole numbers

A document holds whole numbers of 64 bits, **signed or unsigned**: from −2⁶³ up to 2⁶⁴ − 1. The
bounds are part of the type, so no operation has to ask whether a number it was given is one.
-/

set_option autoImplicit false

namespace Sweep

/-- A whole number of signed or unsigned 64 bits. -/
structure Whole where
  value : Int
  lower : -0x8000000000000000 ≤ value
  upper : value < 0x10000000000000000
deriving DecidableEq

namespace Whole

/-- The whole number of this value, if it is in range. -/
def ofInt? (n : Int) : Option Whole :=
  if h : -0x8000000000000000 ≤ n ∧ n < 0x10000000000000000 then some ⟨n, h.1, h.2⟩ else none

/-- Whether signed 64 bits suffice. -/
def isSigned (n : Whole) : Bool := decide (n.value < 0x8000000000000000)

/-- Decimal digits with a minus sign for negative numbers. -/
def text (n : Whole) : String :=
  let digits := String.ofList (Nat.toDigits 10 n.value.natAbs)
  if n.value < 0 then "-" ++ digits else digits

instance : Inhabited Whole := ⟨0, by decide, by decide⟩

end Whole

end Sweep
