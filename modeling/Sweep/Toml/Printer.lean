import Sweep.Number.Layout
import Sweep.Toml.Item
import Sweep.Toml.Name

/-!
# Writing TOML

A table is written as its own plain entries, one per line, and then its tables and arrays of tables
with **headers**, depth first. So entries may move, but never across a header: the plain ones keep
their order, and so do the others. A table gets a header if it has plain entries or no entries at
all; an array of tables has one for every element. A blank line precedes a header, except at the top
of the file.

A list is an array of tables if it is not empty and holds tables only; any other list is written in
line, and all that lies in a list written in line is written in line too.

A string is written in the first form that needs no escape: double quotes, single quotes, and the
same three-fold. Only if none of them does are its characters escaped.
-/

set_option autoImplicit false

namespace Sweep.Toml

/-! ## Strings -/

def isHardControl (c : Char) :
    Bool := (decide (c.toNat < 0x20) && c != '\t') || decide (c.toNat = 0x7F)

/-- The longest run of a character, when `run` of them stand in front and `longest` is the longest
before. -/
def longestRunFrom (q : Char) : (run longest : Nat) → List Char → Nat
  | _, longest, [] => longest
  | run, longest, c :: rest =>
    if c = q then longestRunFrom q (run + 1) (max longest (run + 1)) rest
    else longestRunFrom q 0 longest rest

def longestRun (q : Char) (cs : List Char) : Nat := longestRunFrom q 0 0 cs

/-- The form in which a string is written. -/
inductive QuoteForm where
  | basic
  | literal
  | basicLines
  | literalLines
deriving DecidableEq, Repr

/-- The first form that suits the characters of a string. -/
def QuoteForm.choose (cs : List Char) : QuoteForm :=
  let lines := cs.contains '\n'
  let control := cs.any fun c => isHardControl c && c != '\n'
  let backslash := cs.contains '\\'
  if !control && !backslash && !lines && longestRun '"' cs = 0 then .basic
  else if !control && !lines && longestRun '\'' cs = 0 then .literal
  else if !control && !backslash && longestRun '"' cs < 3 then .basicLines
  else if !control && longestRun '\'' cs < 3 then .literalLines
  else if lines then .basicLines
  else .basic

/-- The characters of a string in double quotes: `run` double quotes stand in front, and one more
than `allowed` in a row is escaped. -/
def escapeFrom (breaks : Bool) (allowed : Nat) : (run : Nat) → List Char → List Char
  | _, [] => []
  | run, c :: rest =>
    if c = '"' then
      if run < allowed then c :: escapeFrom breaks allowed (run + 1) rest
      else '\\' :: '"' :: escapeFrom breaks allowed 0 rest
    else if c = '\x08' then '\\' :: 'b' :: escapeFrom breaks allowed 0 rest
    else if c = '\t' then '\\' :: 't' :: escapeFrom breaks allowed 0 rest
    else if c = '\x0c' then '\\' :: 'f' :: escapeFrom breaks allowed 0 rest
    else if c = '\r' then '\\' :: 'r' :: escapeFrom breaks allowed 0 rest
    else if c = '\\' then '\\' :: '\\' :: escapeFrom breaks allowed 0 rest
    else if c = '\n' then
      if breaks then c :: escapeFrom breaks allowed 0 rest
      else '\\' :: 'n' :: escapeFrom breaks allowed 0 rest
    else if isHardControl c then
      '\\' :: 'u' :: (Text.hex 4 c.toNat).map Char.toUpper ++ escapeFrom breaks allowed 0 rest
    else c :: escapeFrom breaks allowed 0 rest

/-- The characters of a string in double quotes on one line. -/
def escapeLine (cs : List Char) : List Char := escapeFrom false 0 0 cs

/-- The characters of a string in three double quotes. -/
def escapeLines (cs : List Char) : List Char := escapeFrom true 2 0 cs

/-- A line break after opening quotes, for a string that has one. -/
def leadingBreak (cs : List Char) : List Char := if cs.contains '\n' then ['\n'] else []

def quoted (cs : List Char) : List Char :=
  match QuoteForm.choose cs with
  | .basic => '"' :: escapeLine cs ++ ['"']
  | .literal => '\'' :: cs ++ ['\'']
  | .basicLines => ['"', '"', '"'] ++ leadingBreak cs ++ escapeLines cs ++ ['"', '"', '"']
  | .literalLines => ['\'', '\'', '\''] ++ leadingBreak cs ++ cs ++ ['\'', '\'', '\'']

def nameText (name : String) : List Char :=
  let cs := name.toList
  let control := cs.any isHardControl
  if !cs.isEmpty && cs.all isBareChar then cs
  else if !control && !cs.contains '\\' && !cs.contains '"' then '"' :: escapeLine cs ++ ['"']
  else if !control && !cs.contains '\'' then '\'' :: cs ++ ['\'']
  else '"' :: escapeLine cs ++ ['"']

def pathText : List String → List Char
  | [] => []
  | [last] => nameText last
  | first :: rest => nameText first ++ '.' :: pathText rest

/-! ## Values in line -/

/-- A double at its places, never with an exponent. -/
def doubleText (x : Double) : List Char :=
  let body := (x.shortest .upward).plain
  if x.negative then '-' :: body else body

def scalarText : Item → List Char
  | .text s => quoted s.toList
  | .whole n => (if n < 0 then ['-'] else []) ++ Text.digits 10 n.natAbs
  | .double x => doubleText x
  | .notFinite => ['n', 'a', 'n']
  | .bool true => ['t', 'r', 'u', 'e']
  | .bool false => ['f', 'a', 'l', 's', 'e']
  | .datetime d => d.text
  | .list _ => []
  | .table _ => []

mutual

def inline : Item → List Char
  | .list items => '[' :: inlineItems items ++ [']']
  | .table [] => ['\x7b', '\x7d']
  | .table entries => '\x7b' :: ' ' :: inlineEntries entries ++ [' ', '\x7d']
  | item => scalarText item

def inlineItems : List Item → List Char
  | [] => []
  | [last] => inline last
  | first :: rest => inline first ++ ',' :: ' ' :: inlineItems rest

def inlineEntries : List (String × Item) → List Char
  | [] => []
  | [(name, last)] => nameText name ++ ' ' :: '=' :: ' ' :: inline last
  | (name, first) :: rest =>
    nameText name ++ ' ' :: '=' :: ' ' :: inline first ++ ',' :: ' ' :: inlineEntries rest

end

/-! ## Sections -/

def Item.isTable : Item → Bool
  | .table _ => true
  | _ => false

/-- Whether an item is written with headers: a table, or an array of tables. -/
def Item.hasHeaders : Item → Bool
  | .table _ => true
  | .list items => !items.isEmpty && items.all Item.isTable
  | _ => false

/-- The plain entries of a table, one per line. -/
def plainLines : List (String × Item) → List Char
  | [] => []
  | (name, item) :: rest =>
    if item.hasHeaders then plainLines rest
    else nameText name ++ ' ' :: '=' :: ' ' :: inline item ++ '\n' :: plainLines rest

def needsHeader (entries : List (String × Item)) : Bool :=
  entries.isEmpty || entries.any (!·.2.hasHeaders)

def tableHeader (path : List String) : List Char := '\n' :: '[' :: pathText path ++ [']', '\n']

/-- The header of one element of an array of tables, after a blank line. -/
def elementHeader (path : List String) : List Char :=
  '\n' :: '[' :: '[' :: pathText path ++ [']', ']', '\n']

mutual

/-- The sections of an item at a path; none for an item that is written in line. -/
def itemSections (path : List String) : Item → List Char
  | .table entries =>
    (if needsHeader entries then tableHeader path else []) ++ plainLines entries ++
      sections path entries
  | .list items => if (Item.list items).hasHeaders then elementSections path items else []
  | _ => []

/-- The sections of the elements of an array of tables. -/
def elementSections (path : List String) : List Item → List Char
  | [] => []
  | .table entries :: rest =>
    elementHeader path ++ plainLines entries ++ sections path entries ++ elementSections path rest
  | _ :: rest => elementSections path rest

/-- The sections of the tables and arrays of tables among the entries of a table. -/
def sections (path : List String) : List (String × Item) → List Char
  | [] => []
  | (name, item) :: rest => itemSections (path ++ [name]) item ++ sections path rest

end

/-- The text of a root table. A blank line at the top goes. -/
def documentText (entries : List (String × Item)) : List Char :=
  match plainLines entries ++ sections [] entries with
  | '\n' :: rest => rest
  | cs => cs

end Sweep.Toml
