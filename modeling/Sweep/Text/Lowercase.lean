import Sweep.Text.Classes
import Sweep.Text.Table.Lowercase

/-!
# Lower case

The lower-case form of a text. Two characters are special: the dotted capital I becomes two
characters, and a capital sigma takes its final form at the end of a word, which is the one mapping
that looks at its surroundings.
-/

set_option autoImplicit false

namespace Sweep.Text

/-- The simple lower-case partner of a code point, itself if there is none. -/
def lowercaseOf : List CaseRun → Nat → Nat
  | [], n => n
  | run :: rest, n =>
    if n < run.first then n
    else if n ≤ run.last then
      if (n - run.first) % run.stride = 0 then (n + run.shift).toNat else n
    else lowercaseOf rest n

/-- Whether the first character past those that casing ignores is a cased one. -/
def meetsCased : List Char → Bool
  | [] => false
  | c :: rest =>
    if covers caseIgnorableRanges c.toNat then meetsCased rest else covers casedRanges c.toNat

/-- The lower-case form of a character that stands after `before` (nearest first) and in front of
`after`. -/
def lowercaseAt (before : List Char) (c : Char) (after : List Char) : List Char :=
  if c.toNat = 0x130 then ['i', Char.ofNat 0x307]
  else if c.toNat = 0x3A3 then
    if meetsCased before && !meetsCased after then [Char.ofNat 0x3C2] else [Char.ofNat 0x3C3]
  else [Char.ofNat (lowercaseOf lowercaseRuns c.toNat)]

/-- Lower case of a text, given what stands in front of it, nearest first. -/
def lowercaseFrom : List Char → List Char → List Char
  | _, [] => []
  | before, c :: after => lowercaseAt before c after ++ lowercaseFrom (c :: before) after

def lowercase (s : String) : String := String.ofList (lowercaseFrom [] s.toList)

end Sweep.Text
