import Sweep.Text.Classes
import Sweep.Text.Numeral

/-!
# Keys

A **key** is a path into a nested document: one segment per table to enter, then the name of the
value. Any text can be a segment. Where the key grammar reads a segment back as it stands, the
segment is *bare* and is written as it is; any other segment is written between double quotes.

`Key.display` is the canonical form. It is what messages show and what `Key.read` reads back.
-/

set_option autoImplicit false

namespace Sweep

/-- A path into a document. -/
structure Key where
  segments : List String
deriving DecidableEq, Repr, Inhabited

namespace Key

def isIdentifierStart (c : Char) : Bool := c == '_' || Text.isAlphabetic c

/-- A character that an identifier can go on with. -/
def isIdentifierPart (c : Char) : Bool := c == '_' || Text.isAlphanumeric c

/-- Whether a segment can stand without quotes: an identifier, or digits only. -/
def isBare : List Char → Bool
  | [] => false
  | c :: rest =>
    if Text.isAsciiDigit c then rest.all Text.isAsciiDigit
    else isIdentifierStart c && rest.all isIdentifierPart

def escaped (c : Char) : List Char :=
  if c = '"' then ['\\', '"']
  else if c = '\\' then ['\\', '\\']
  else if c = '\n' then ['\\', 'n']
  else if c = '\t' then ['\\', 't']
  else if c = '\r' then ['\\', 'r']
  else if Text.isControl c then '\\' :: 'U' :: Text.hex 8 c.toNat
  else [c]

def quoted (segment : List Char) : List Char := '"' :: segment.flatMap escaped ++ ['"']

def displaySegment (segment : String) : List Char :=
  if isBare segment.toList then segment.toList else quoted segment.toList

/-- Segments in their canonical form, with dots between them. -/
def displaySegments : List String → List Char
  | [] => []
  | [last] => displaySegment last
  | first :: rest => displaySegment first ++ '.' :: displaySegments rest

def display (key : Key) : String := String.ofList (displaySegments key.segments)

end Key

end Sweep
