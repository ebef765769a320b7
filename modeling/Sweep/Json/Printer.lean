import Sweep.Document.Value
import Sweep.Number.Layout
import Sweep.Text.Numeral

/-!
# Writing JSON

Two spellings of one value: **compact**, without any white space, and **pretty**, with an entry per
line, two spaces of indentation per level and nothing inside an empty container. Both keep the order
of entries and differ in white space only.

Strings are escaped no more than they have to be: quotes, backslashes and the controls below the
space. A double is written with the fewest digits that read back, always with a point or an
exponent, so that it reads back as a double.
-/

set_option autoImplicit false

namespace Sweep.Json

def escaped (c : Char) : List Char :=
  if c = '"' then ['\\', '"']
  else if c = '\\' then ['\\', '\\']
  else if c = '\x08' then ['\\', 'b']
  else if c = '\x0c' then ['\\', 'f']
  else if c = '\n' then ['\\', 'n']
  else if c = '\r' then ['\\', 'r']
  else if c = '\t' then ['\\', 't']
  else if c.toNat < 0x20 then '\\' :: 'u' :: Text.hex 4 c.toNat
  else [c]

def quoted (s : String) : List Char := '"' :: s.toList.flatMap escaped ++ ['"']

/-- A double: at its places for exponents from −5 up to 15, otherwise with an exponent that shows
its sign. -/
def doubleText (x : Double) : List Char :=
  let s := x.shortest .toEven
  let body :=
    if -5 ≤ s.exponent ∧ s.exponent ≤ 15 then s.plain
    else s.mantissa ++ 'e' :: exponentText 1 s.exponent
  if x.negative then '-' :: body else body

def scalarText : Value → List Char
  | .null => "null".toList
  | .bool true => "true".toList
  | .bool false => "false".toList
  | .whole n => n.text.toList
  | .double x => doubleText x
  | .text s => quoted s
  | .list _ => []
  | .table _ => []

mutual

def compact : Value → List Char
  | .list items => '[' :: compactItems items ++ [']']
  | .table entries => '\x7b' :: compactEntries entries ++ ['\x7d']
  | v => scalarText v

def compactItems : List Value → List Char
  | [] => []
  | [last] => compact last
  | first :: rest => compact first ++ ',' :: compactItems rest

def compactEntries : List (String × Value) → List Char
  | [] => []
  | [(name, last)] => quoted name ++ ':' :: compact last
  | (name, first) :: rest => quoted name ++ ':' :: compact first ++ ',' :: compactEntries rest

end

/-- A line break and the indentation of a level. -/
def newLine (level : Nat) : List Char := '\n' :: List.replicate (2 * level) ' '

mutual

/-- A value in lines, its parts one level deeper than `level`. -/
def pretty (level : Nat) : Value → List Char
  | .list [] => ['[', ']']
  | .list items => '[' :: prettyItems (level + 1) items ++ newLine level ++ [']']
  | .table [] => ['\x7b', '\x7d']
  | .table entries => '\x7b' :: prettyEntries (level + 1) entries ++ newLine level ++ ['\x7d']
  | v => scalarText v

def prettyItems (level : Nat) : List Value → List Char
  | [] => []
  | [last] => newLine level ++ pretty level last
  | first :: rest => newLine level ++ pretty level first ++ ',' :: prettyItems level rest

def prettyEntries (level : Nat) : List (String × Value) → List Char
  | [] => []
  | [(name, last)] => newLine level ++ quoted name ++ ':' :: ' ' :: pretty level last
  | (name, first) :: rest =>
    newLine level ++ quoted name ++ ':' :: ' ' :: pretty level first ++ ',' ::
      prettyEntries level rest

end

end Sweep.Json
