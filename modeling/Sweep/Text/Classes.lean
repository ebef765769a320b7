import Sweep.Text.Table.Alphabetic
import Sweep.Text.Table.Numeric
import Sweep.Text.Table.Combining
import Sweep.Text.Table.Unprintable

/-!
# Character classes

The classes of characters that the key grammar and the messages speak about. Each is a test on
**one** character; the data behind the larger ones are ascending ranges of code points, and `covers`
looks a code point up in them. ASCII sits in the first few ranges of every table, so plain text is
decided at once.
-/

set_option autoImplicit false

namespace Sweep.Text

/-- Whether one of the ascending, disjoint ranges holds `n`; the search stops at the first range
past `n`. -/
def covers : List (Nat × Nat) → Nat → Bool
  | [], _ => false
  | (low, high) :: rest, n => if n < low then false else if n ≤ high then true else covers rest n

/-- Ascending ranges of the property White_Space. -/
def blankRanges : List (Nat × Nat) := [
  (0x9, 0xD), (0x20, 0x20), (0x85, 0x85), (0xA0, 0xA0), (0x1680, 0x1680), (0x2000, 0x200A),
  (0x2028, 0x2029), (0x202F, 0x202F), (0x205F, 0x205F), (0x3000, 0x3000)]

def isBlank (c : Char) : Bool := covers blankRanges c.toNat

/-- A letter of any script, or a mark that counts as one. -/
def isAlphabetic (c : Char) : Bool := covers alphabeticRanges c.toNat

def isAlphanumeric (c : Char) : Bool := isAlphabetic c || covers numericRanges c.toNat

def isAsciiDigit (c : Char) : Bool := decide ('0' ≤ c) && decide (c ≤ '9')

/-- A control character: below the space, or from the delete character up to U+009F. -/
def isControl (c : Char) : Bool :=
  decide (c.toNat < 0x20) || (decide (0x7F ≤ c.toNat) && decide (c.toNat ≤ 0x9F))

def isAsciiControl (c : Char) : Bool := decide (c.toNat < 0x20) || decide (c.toNat = 0x7F)

/-- A character drawn on top of its neighbour. -/
def isCombining (c : Char) : Bool := covers combiningRanges c.toNat

/-- A character with a glyph of its own; of the separators only the plain space has one. -/
def isPrintable (c : Char) : Bool := !covers unprintableRanges c.toNat

end Sweep.Text
