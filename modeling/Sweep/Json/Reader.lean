import Sweep.Document.Entries
import Sweep.Number.Scaling
import Sweep.Text.Classes
import Sweep.Text.Numeral

/-!
# Reading JSON

Every reader takes the text from where its construct begins and gives the value **with the text
after it**, or nothing if the text is not of the grammar. There is no recovery: one fault anywhere
and the whole text is no value.

Nesting is bounded. `readValue depth` may still open `depth` containers inside each other, which is
what the recursion is on; a list of items inside one container is bounded by the length of its text.

A whole number in the range of 64 bits is kept as such. Every other number is a double: one with a
point or an exponent, one out of range, and minus zero. Its digits are brought to their place by
`Sweep.Number.Scaling`. A name that occurs twice keeps its first place and takes its last value.
-/

set_option autoImplicit false

namespace Sweep.Json

def isSpace (c : Char) : Bool := c == ' ' || c == '\n' || c == '\t' || c == '\r'

def skipSpace (cs : List Char) : List Char := cs.dropWhile isSpace

/-- The text after `word`, if it stands at the front. -/
def afterWord? (word : String) (cs : List Char) : Option (List Char) :=
  if word.toList.isPrefixOf cs then some (cs.drop word.length) else none

/-! ## Strings -/

/-- The character of an escape that is one letter. -/
def letterEscape? (c : Char) : Option Char :=
  if c = '"' ∨ c = '\\' ∨ c = '/' then some c
  else if c = 'b' then some '\x08'
  else if c = 'f' then some '\x0c'
  else if c = 'n' then some '\n'
  else if c = 'r' then some '\r'
  else if c = 't' then some '\t'
  else none

/-- The low half of a character given in two halves, after the high one, and the text after it. -/
def readLowHalf (high : Nat) : List Char → Option (Char × List Char)
  | '\\' :: 'u' :: rest =>
    match Text.readHex 4 0 rest with
    | some (low, rest) =>
      if 0xDC00 ≤ low ∧ low ≤ 0xDFFF then
        (Text.scalar? (0x10000 + (high - 0xD800) * 0x400 + (low - 0xDC00))).map (·, rest)
      else none
    | none => none
  | _ => none

/-- The character of an escape, read after its backslash, and the text after it. A half of a
character must have its other half next to it. -/
def readEscape : List Char → Option (Char × List Char)
  | [] => none
  | c :: rest =>
    if c = 'u' then
      match Text.readHex 4 0 rest with
      | some (n, rest) =>
        if 0xD800 ≤ n ∧ n ≤ 0xDBFF then readLowHalf n rest
        else (Text.scalar? n).map (·, rest)
      | none => none
    else (letterEscape? c).map (·, rest)

theorem length_readLowHalf {high : Nat} {cs rest : List Char} {x : Char}
    (h : readLowHalf high cs = some (x, rest)) : rest.length < cs.length := by
  unfold readLowHalf at h
  split at h
  · split at h
    · rename_i hr
      split at h
      · obtain ⟨_, -, hx⟩ := Option.map_eq_some_iff.1 h
        cases hx
        have := Text.length_readHex hr
        simp only [List.length_cons]; omega
      · cases h
    · cases h
  · cases h

theorem length_readEscape {cs rest : List Char} {x : Char} (h : readEscape cs = some (x, rest)) :
    rest.length < cs.length := by
  unfold readEscape at h
  split at h
  · cases h
  · rw [List.length_cons]
    split at h
    · split at h
      · rename_i hr
        have := Text.length_readHex hr
        split at h
        · have := length_readLowHalf h; omega
        · obtain ⟨_, -, hx⟩ := Option.map_eq_some_iff.1 h
          cases hx
          omega
      · cases h
    · obtain ⟨_, -, hx⟩ := Option.map_eq_some_iff.1 h
      cases hx
      exact Nat.lt_succ_self _

/-- The characters of a string up to its closing quote, and the text after that quote. -/
def readQuoted : List Char → Option (List Char × List Char)
  | [] => none
  | '"' :: rest => some ([], rest)
  | '\\' :: rest =>
    match h : readEscape rest with
    | none => none
    | some (c, rest') =>
      have := length_readEscape h
      (readQuoted rest').map fun (text, after) => (c :: text, after)
  | c :: rest =>
    if c.toNat < 0x20 then none
    else (readQuoted rest).map fun (text, after) => (c :: text, after)
termination_by cs => cs.length

def readString : List Char → Option (String × List Char)
  | '"' :: rest => (readQuoted rest).map fun (text, after) => (String.ofList text, after)
  | _ => none

/-! ## Numbers -/

/-- One digit or more, and the text after them. -/
def readDigits (cs : List Char) : Option (List Char × List Char) :=
  match cs.takeWhile Text.isAsciiDigit with
  | [] => none
  | digits => some (digits, cs.dropWhile Text.isAsciiDigit)

/-- The digits in front of the point: no zero before another digit. -/
def readFront : List Char → Option (List Char × List Char)
  | '0' :: rest => some (['0'], rest)
  | cs => readDigits cs

/-- The digits behind the point, none if there is no point. -/
def readFraction : List Char → Option (Option (List Char) × List Char)
  | '.' :: rest => (readDigits rest).map fun (digits, after) => (some digits, after)
  | cs => some (none, cs)

def readSignedDigits : List Char → Option (Int × List Char)
  | '-' :: rest =>
    (readDigits rest).map fun (digits, after) => (-(Text.decimalNumber digits : Int), after)
  | '+' :: rest =>
    (readDigits rest).map fun (digits, after) => ((Text.decimalNumber digits : Int), after)
  | cs => (readDigits cs).map fun (digits, after) => ((Text.decimalNumber digits : Int), after)

/-- The exponent, none if there is no letter for one. -/
def readExponent : List Char → Option (Option Int × List Char)
  | 'e' :: rest => (readSignedDigits rest).map fun (n, after) => (some n, after)
  | 'E' :: rest => (readSignedDigits rest).map fun (n, after) => (some n, after)
  | cs => some (none, cs)

/-- Digits gathered behind `coefficient` as long as 64 bits hold the result, and how many are left
over. -/
def gather (coefficient : Nat) : List Char → Nat × Nat
  | [] => (coefficient, 0)
  | c :: rest =>
    let next := coefficient * 10 + (Text.decimalValue? c).getD 0
    if next < 0x10000000000000000 then gather next rest else (coefficient, rest.length + 1)

/-- The number that digits without point and exponent denote: `left` more digits follow those
gathered in `coefficient`. -/
def wholeOrDouble (negative : Bool) (coefficient left : Nat) : Option Value :=
  if left = 0 ∧ ¬(negative ∧ coefficient = 0) then
    match Whole.ofInt? (if negative then -coefficient else coefficient) with
    | some n => some (.whole n)
    | none => (Double.ofScaled? negative coefficient 0).map .double
  else (Double.ofScaled? negative coefficient left).map .double

/-- A number after its sign. Digits past the 64th bit count as zeros in front of the point, and not
at all behind it. -/
def readMagnitude (negative : Bool) (cs : List Char) : Option (Value × List Char) := do
  let (front, cs) ← readFront cs
  let (fraction, cs) ← readFraction cs
  let (exponent, cs) ← readExponent cs
  let (coefficient, left) := gather 0 front
  let value ← match fraction, exponent with
    | none, none => wholeOrDouble negative coefficient left
    | _, _ =>
      let digits := fraction.getD []
      let (coefficient, dropped) := gather coefficient digits
      let places : Int := digits.length - dropped
      (Double.ofScaled? negative coefficient (left - places + exponent.getD 0)).map .double
  return (value, cs)

def readNumber : List Char → Option (Value × List Char)
  | '-' :: rest => readMagnitude true rest
  | cs => readMagnitude false cs

/-! ## Values -/

def readScalar (cs : List Char) : Option (Value × List Char) :=
  match cs with
  | '"' :: _ => (readString cs).map fun (s, rest) => (.text s, rest)
  | 'n' :: _ => (afterWord? "null" cs).map (.null, ·)
  | 't' :: _ => (afterWord? "true" cs).map (.bool true, ·)
  | 'f' :: _ => (afterWord? "false" cs).map (.bool false, ·)
  | _ => readNumber cs

/-- One item or more with commas between them, up to the closing character: `bound` limits their
number. -/
def readItems {α : Type} (close : Char) (item : List Char → Option (α × List Char)) :
    (bound : Nat) → List Char → Option (List α × List Char)
  | 0, _ => none
  | bound + 1, cs =>
    match item (skipSpace cs) with
    | none => none
    | some (first, rest) =>
      match skipSpace rest with
      | [] => none
      | c :: rest =>
        if c = close then some ([first], rest)
        else if c = ',' then
          (readItems close item bound rest).map fun (more, after) => (first :: more, after)
        else none

/-- The items of a container after its opening character. -/
def readContainer {α : Type} (close : Char) (item : List Char → Option (α × List Char))
    (cs : List Char) : Option (List α × List Char) :=
  match skipSpace cs with
  | [] => none
  | c :: rest =>
    if c = close then some ([], rest) else readItems close item (rest.length + 1) (c :: rest)

def readEntry (value : List Char → Option (Value × List Char)) (cs : List Char) :
    Option ((String × Value) × List Char) :=
  match readString cs with
  | none => none
  | some (name, rest) =>
    match skipSpace rest with
    | ':' :: rest => (value (skipSpace rest)).map fun (v, after) => ((name, v), after)
    | _ => none

/-- The entries of a table in which a later value of a name replaces an earlier one. -/
def tableOf (entries : List (String × Value)) : List (String × Value) :=
  entries.foldl (fun table (name, value) => Entries.put name value table) []

/-- A value that opens at most `depth` containers inside each other. -/
def readValue : (depth : Nat) → List Char → Option (Value × List Char)
  | 0, '[' :: _ => none
  | 0, '\x7b' :: _ => none
  | depth + 1, '[' :: rest =>
    (readContainer ']' (readValue depth) rest).map fun (items, after) => (.list items, after)
  | depth + 1, '\x7b' :: rest =>
    (readContainer '\x7d' (readEntry (readValue depth)) rest).map fun (entries, after) =>
      (.table (tableOf entries), after)
  | _, cs => readScalar cs

/-- How many containers may be open inside each other. -/
def nestingLimit : Nat := 127

/-- The value that a text denotes, white space around it aside. -/
def read? (text : String) : Option Value :=
  match readValue nestingLimit (skipSpace text.toList) with
  | some (value, rest) => if (skipSpace rest).isEmpty then some value else none
  | none => none

/-- The entries of the table that a text denotes. -/
def readTable? (text : String) : Option (List (String × Value)) :=
  match read? text with
  | some (.table entries) => some entries
  | _ => none

end Sweep.Json
