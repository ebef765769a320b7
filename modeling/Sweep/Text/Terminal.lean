/-!
# What a terminal shows of a text

A message may repeat a word just as it was given, and a word may hold characters that a terminal
obeys instead of showing them. Those are left out, so that a message cannot move the cursor or
colour what follows:

* controls, except the **blank** ones (tab, line feed, form feed, carriage return);
* **sequences**, which the escape character opens. A new escape opens another one, the two cancel
  characters close any, and a blank or a character past ASCII closes and is shown, but for blanks
  inside a string.
-/

set_option autoImplicit false

namespace Sweep.Text

/-- The sequence that the characters so far have left open. -/
inductive Sequence where
  /-- none -/
  | closed
  /-- the escape character alone -/
  | escape
  /-- an escape with at least one character of the range from the space to `/` -/
  | intermediate
  /-- a control sequence, which a character of the range from `@` to `~` closes -/
  | control
  /-- a string, which only an escape or a cancel closes -/
  | string
  /-- a string for the surroundings, such as a title, which the bell closes too -/
  | title
deriving DecidableEq, Repr

/-- A control that a terminal shows as blank space. -/
def isBlankControl (c : Char) : Bool := c == '\t' || c == '\n' || c == '\x0c' || c == '\r'

namespace Sequence

/-- Whether a sequence carries free text. -/
def isString : Sequence → Bool
  | .string => true
  | .title => true
  | _ => false

def shows (sequence : Sequence) (c : Char) : Bool :=
  decide (0x80 ≤ c.toNat) || (isBlankControl c && !sequence.isString)
    || (decide (sequence = .closed) && decide (0x20 ≤ c.toNat) && decide (c.toNat < 0x7F))

/-- The sequence that an escape opens with its next character, a hidden one. -/
def ofFinal (c : Char) : Sequence :=
  if c = '[' then .control
  else if c = ']' then .title
  else if c = 'P' ∨ c = 'X' ∨ c = '^' ∨ c = '_' then .string
  else .closed

/-- What a hidden character leaves open. -/
def afterHidden (sequence : Sequence) (c : Char) : Sequence :=
  if c = '\x1b' then .escape
  else if c = '\x18' ∨ c = '\x1a' then .closed
  else if c.toNat < 0x20 ∨ c.toNat = 0x7F then
    if sequence = .title ∧ c = '\x07' then .closed else sequence
  else
    match sequence with
    | .closed => .closed
    | .escape => if c.toNat < 0x30 then .intermediate else ofFinal c
    | .intermediate => if c.toNat < 0x30 then .intermediate else .closed
    | .control => if c.toNat < 0x40 then .control else .closed
    | .string => .string
    | .title => .title

/-- What is shown of a text that follows a sequence. -/
def shown : Sequence → List Char → List Char
  | _, [] => []
  | sequence, c :: rest =>
    if sequence.shows c then c :: shown .closed rest else shown (sequence.afterHidden c) rest

end Sequence

def shown (s : String) : String := String.ofList (Sequence.closed.shown s.toList)

/-- The first line of a text. A line ends in front of a line feed, or of a carriage return and a
line feed. -/
def firstLine : List Char → List Char
  | [] => []
  | '\n' :: _ => []
  | '\r' :: '\n' :: _ => []
  | c :: rest => c :: firstLine rest

end Sweep.Text
