import Sweep.Conversion.Directive
import Sweep.Document.Display
import Sweep.Fault

/-!
# Spelling a value

A directive is carried out in two steps. `Directive.spell` chooses the characters and knows nothing
of the width; `Directive.fill` brings them to the width and knows nothing of the value. Between them
stands a `Spelling`: **a text**, which is only ever filled with spaces, or **a number**, which
carries its sign apart from its digits so that zeros can go between the two.

Memory is taken as unbounded. A width of `2 ^ 63` or more, past what an allocation can hold, makes a
run end without an answer; here it makes a text of that length.
-/

set_option autoImplicit false

namespace Sweep

/-- What a directive makes of a value before it is brought to a width. -/
inductive Spelling where
  | text (chars : List Char)
  /-- `zeroFill` says whether zeros may fill up the digits -/
  | number (negative : Bool) (digits : List Char) (zeroFill : Bool)
deriving DecidableEq, Repr

namespace Conversion

def escaped (c : Char) : List Char :=
  if c = '"' then ['\\', '"']
  else if c = '\\' then ['\\', '\\']
  else if c = '\x07' then ['\\', 'a']
  else if c = '\x08' then ['\\', 'b']
  else if c = '\x0c' then ['\\', 'f']
  else if c = '\n' then ['\\', 'n']
  else if c = '\r' then ['\\', 'r']
  else if c = '\t' then ['\\', 't']
  else if c = '\x0b' then ['\\', 'v']
  else if Text.isAsciiControl c then '\\' :: 'x' :: Text.hex 2 c.toNat
  else if Text.isControl c then '\\' :: 'u' :: Text.hex 4 c.toNat
  else [c]

/-- A text between double quotes, without control characters. -/
def quoted (s : List Char) : List Char := '"' :: s.flatMap escaped ++ ['"']

/-- Two lower-case hexadecimal digits for every byte of a text. -/
def hexBytes (s : String) : List Char :=
  s.toUTF8.data.toList.flatMap fun byte => Text.hex 2 byte.toNat

end Conversion

/-- The whole number that a value stands for where one is asked for: a double counts if it has no
fraction and lies below 10¹⁸. -/
def Value.integer? : Value → Option Int
  | .whole n => some n.value
  | .double x =>
    match x.toInt? with
    | some n => if n.natAbs < 1000000000000000000 then some n else none
    | none => none
  | _ => none

/-- The double that a number is, or the one nearest to it. -/
def Value.double? : Value → Option Double
  | .whole n => some (.ofInt n.value)
  | .double x => some x
  | _ => none

namespace Directive

/-- The verb does not apply. -/
def mismatch (d : Directive) (v : Value) : Mismatch := ⟨d.verb, v.kind⟩

/-- The digits of a magnitude in the base of the verb. -/
def baseDigits (verb : Verb) (magnitude : Nat) : List Char :=
  match verb with
  | .b => Text.digits 2 magnitude
  | .o => Text.digits 8 magnitude
  | .x => Text.digits 16 magnitude
  | .upperX => (Text.digits 16 magnitude).map Char.toUpper
  | _ => Text.digits 10 magnitude

/-- The mark of the base of the verb, shown in front of the digits on request. -/
def baseMark : Verb → List Char
  | .b => ['0', 'b']
  | .o => ['0']
  | .x => ['0', 'x']
  | .upperX => ['0', 'X']
  | _ => []

/-- The digits of a magnitude, at least as many as the precision asks for; no digits at all for a
zero with precision zero. -/
def preciseDigits (d : Directive) (magnitude : Nat) : List Char :=
  match d.precision with
  | none => baseDigits d.verb magnitude
  | some p => if p = 0 ∧ magnitude = 0 then [] else Text.padLeft '0' p (baseDigits d.verb magnitude)

/-- The digits of a magnitude with the mark of the base, if it is asked for. An octal number that
starts with a zero needs no other. -/
def markedDigits (d : Directive) (magnitude : Nat) : List Char :=
  let digits := d.preciseDigits magnitude
  if d.sharp && !(d.verb == .o && digits.head? == some '0') then baseMark d.verb ++ digits
  else digits

/-- A whole number: a precision rules out filling with zeros. -/
def spellInteger (d : Directive) (n : Int) : Spelling :=
  .number (decide (n < 0)) (d.markedDigits n.natAbs) d.precision.isNone

/-- The digits of a magnitude with one digit in front of the point, and an exponent. -/
def exponentDigits (d : Directive) (x : Double) : List Char :=
  (x.significant (d.precision.getD 6 + 1)).withExponent

/-- The digits of a double in the form of the verb. -/
def doubleDigits (d : Directive) (x : Double) : List Char :=
  match d.verb with
  | .e => d.exponentDigits x
  | .upperE => (d.exponentDigits x).map Char.toUpper
  | .g => x.generalMagnitude d.precision d.sharp
  | .upperG => (x.generalMagnitude d.precision d.sharp).map Char.toUpper
  | _ =>
    let places := d.precision.getD 6
    fixedText places (x.rounded places)

/-- A double, with its sign even if it is a zero. -/
def spellDouble (d : Directive) (x : Double) :
    Spelling := .number x.negative (d.doubleDigits x) true

/-- The value as plain text, cut to the precision. -/
def spellPlain (d : Directive) (v : Value) : Spelling :=
  .text (match d.precision with
    | some p => v.display.take p
    | none => v.display)

/-- What the directive makes of a value, whatever its width. -/
def spell (d : Directive) (v : Value) : Except Mismatch Spelling :=
  match d.verb with
  | .s | .v => .ok (d.spellPlain v)
  | .t =>
    match v with
    | .bool true => .ok (.text "true".toList)
    | .bool false => .ok (.text "false".toList)
    | _ => .error (d.mismatch v)
  | .q =>
    match v with
    | .text s => .ok (.text (Conversion.quoted s.toList))
    | _ => .error (d.mismatch v)
  | .c =>
    match v.integer? with
    | some n =>
      match (if n < 0 then none else Text.scalar? n.toNat) with
      | some c => .ok (.text [c])
      | none => .error (d.mismatch v)
    | none => .error (d.mismatch v)
  | .e | .upperE | .f | .upperF | .g | .upperG =>
    match v.double? with
    | some x => .ok (d.spellDouble x)
    | none => .error (d.mismatch v)
  | .x | .upperX =>
    match v with
    | .text s =>
      let digits := Conversion.hexBytes s
      .ok (.text (if d.verb = .upperX then digits.map Char.toUpper else digits))
    | v =>
      match v.integer? with
      | some n => .ok (d.spellInteger n)
      | none => .error (d.mismatch v)
  | .d | .i | .b | .o =>
    match v.integer? with
    | some n => .ok (d.spellInteger n)
    | none => .error (d.mismatch v)

def sign (d : Directive) (negative : Bool) : List Char :=
  if negative then ['-'] else if d.plus then ['+'] else if d.space then [' '] else []

/-- Spaces up to the width, whatever that is: behind with a minus flag, otherwise in front. -/
def fillSpaces (d : Directive) (chars : List Char) : List Char :=
  let missing := d.width.getD 0 - chars.length
  if d.minus then chars ++ List.replicate missing ' ' else List.replicate missing ' ' ++ chars

/-- The spelling brought to the width. Zeros go between sign and digits, and a minus flag rules them
out. -/
def fill (d : Directive) : Spelling → List Char
  | .text chars => d.fillSpaces chars
  | .number negative digits zeroFill =>
    let sign := d.sign negative
    if d.zero && zeroFill && !d.minus then
      sign ++ List.replicate (d.width.getD 0 - (sign.length + digits.length)) '0' ++ digits
    else d.fillSpaces (sign ++ digits)

end Directive

/-- The text that a conversion makes of a value. -/
def Conversion.apply (c : Conversion) (v : Value) : Except Mismatch (List Char) :=
  match c.directive.spell v with
  | .ok spelling => .ok (c.before.toList ++ c.directive.fill spelling ++ c.after.toList)
  | .error why => .error why

end Sweep
