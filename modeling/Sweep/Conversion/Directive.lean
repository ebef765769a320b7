import Sweep.Text.Classes
import Sweep.Text.Numeral

/-!
# Conversions

A **conversion** says how one value is spelled: literal text around exactly one *directive*, such as
`run-%03d`. A directive is a percent sign, flags, a width, a precision and a verb; in the literal
text `%%` stands for a percent sign.

Reading is a single pass from left to right: literal text up to a percent sign that is not doubled,
the directive, and literal text that must reach the end. A zero before any other width digit is a
flag.
-/

set_option autoImplicit false

namespace Sweep

/-- What a directive does with its value; the two cases of a letter are two verbs. -/
inductive Verb where
  | d | i | b | o | c | x | upperX | e | upperE | f | upperF | g | upperG | s | q | v | t
deriving DecidableEq, Repr

namespace Verb

def letter : Verb → Char
  | .d => 'd' | .i => 'i' | .b => 'b' | .o => 'o' | .c => 'c' | .x => 'x' | .upperX => 'X'
  | .e => 'e' | .upperE => 'E' | .f => 'f' | .upperF => 'F' | .g => 'g' | .upperG => 'G'
  | .s => 's' | .q => 'q' | .v => 'v' | .t => 't'

def all : List Verb :=
  [.d, .i, .b, .o, .c, .x, .upperX, .e, .upperE, .f, .upperF, .g, .upperG, .s, .q, .v, .t]

def ofLetter? (c : Char) : Option Verb := all.find? (·.letter == c)

end Verb

/-- A directive. Without a width there is nothing to fill; without a precision each verb has its
own. -/
structure Directive where
  minus : Bool
  plus : Bool
  space : Bool
  zero : Bool
  sharp : Bool
  width : Option Nat
  precision : Option Nat
  verb : Verb
deriving DecidableEq, Repr

/-- Literal text around one directive. -/
structure Conversion where
  before : String
  directive : Directive
  after : String
deriving DecidableEq, Repr

namespace Conversion

/-- Why a text is no conversion. -/
inductive Malformation where
  /-- no directive, or a second one -/
  | notOneVerb
  /-- a letter that names no verb -/
  | unknownVerb (letter : Char)
  /-- the text ends before the verb -/
  | incomplete
deriving DecidableEq, Repr

/-- The words of a message for a malformed conversion. -/
def Malformation.reason : Malformation → String
  | .notOneVerb => "format must contain exactly one verb"
  | .unknownVerb letter => "unknown verb '%" ++ String.singleton letter ++ "'"
  | .incomplete => "incomplete verb"

/-- The largest width and precision; a longer numeral counts as this one. -/
def limit : Nat := 0xFFFFFFFFFFFFFFFF

/-- Literal text up to the first percent sign that is not doubled, and what follows that sign. -/
def readLiteral : List Char → List Char × Option (List Char)
  | [] => ([], none)
  | '%' :: '%' :: rest =>
    let (text, after) := readLiteral rest
    ('%' :: text, after)
  | c :: rest =>
    if c = '%' then ([], some rest)
    else
      let (text, after) := readLiteral rest
      (c :: text, after)

def isFlag (c : Char) : Bool := c == '-' || c == '+' || c == ' ' || c == '0' || c == '#'

/-- A number with one more digit behind it. Neither of the two steps goes past the limit. -/
def addDigit (n : Nat) (digit : Char) : Nat :=
  min (min (n * 10) limit + (Text.decimalValue? digit).getD 0) limit

/-- The number at the front, if there are digits, and the text after them. -/
def readNumber (cs : List Char) : Option Nat × List Char :=
  match cs.takeWhile Text.isAsciiDigit with
  | [] => (none, cs)
  | digits => (some (digits.foldl addDigit 0), cs.dropWhile Text.isAsciiDigit)

/-- The precision at the front, zero after a bare point, and the text after it. -/
def readPrecision : List Char → Option Nat × List Char
  | '.' :: rest =>
    let (digits, after) := readNumber rest
    (some (digits.getD 0), after)
  | cs => (none, cs)

/-- A directive after its percent sign, and the text after it. -/
def readDirective (cs : List Char) : Except Malformation (Directive × List Char) :=
  let flags := cs.takeWhile isFlag
  let (width, rest) := readNumber (cs.dropWhile isFlag)
  let (precision, rest) := readPrecision rest
  match rest with
  | [] => .error .incomplete
  | letter :: after =>
    match Verb.ofLetter? letter with
    | none => .error (.unknownVerb letter)
    | some verb =>
      .ok ({ minus := flags.contains '-', plus := flags.contains '+', space := flags.contains ' ',
             zero := flags.contains '0', sharp :=
               flags.contains '#', width, precision, verb }, after)

def read (text : String) : Except Malformation Conversion :=
  match readLiteral text.toList with
  | (_, none) => .error .notOneVerb
  | (before, some rest) =>
    match readDirective rest with
    | .error fault => .error fault
    | .ok (directive, rest) =>
      match readLiteral rest with
      | (_, some _) => .error .notOneVerb
      | (after, none) => .ok ⟨String.ofList before, directive, String.ofList after⟩

end Conversion

end Sweep
