import Sweep.Text.Classes
import Sweep.Toml.Datetime

/-!
# Reading dates and times

The parts of a date or time are read the same way wherever they stand: first the **shape**, digits
with marks between them, then the number of digits, then the ranges. So of several faults in one
part the one in its shape is reported.

A whole text that stands for a date or time ends with it (`Datetime.ofText`). Inside a document
other text follows, and a space after a date belongs to it only if a time comes next
(`readDatetime`).
-/

set_option autoImplicit false

namespace Sweep.Toml

open Datetime (Part Expectation Malformation)

/-! ## Shapes -/

def readRun (part : Part) (expected : Expectation) (cs : List Char) :
    Except Malformation (List Char × List Char) :=
  match cs.takeWhile Text.isAsciiDigit with
  | [] => .error ⟨part, some expected⟩
  | run => .ok (run, cs.dropWhile Text.isAsciiDigit)

def readMark (part : Part) (expected : Expectation) (mark : Char) :
    List Char → Except Malformation (List Char)
  | [] => .error ⟨part, some expected⟩
  | c :: rest => if c = mark then .ok rest else .error ⟨part, some expected⟩

def require (part : Part) (expected : Expectation) (holds : Bool) : Except Malformation Unit :=
  if holds then .ok () else .error ⟨part, some expected⟩

/-! ## Parts -/

def isLeap (year : Nat) : Bool := year % 4 == 0 && (year % 100 != 0 || year % 400 == 0)

def lastDay (year month : Nat) : Nat :=
  if month = 2 then if isLeap year then 29 else 28
  else if month = 4 ∨ month = 6 ∨ month = 9 ∨ month = 11 then 30
  else 31

def dateOf (year month day : List Char) : Except Malformation Date := do
  require .date .fullYear (year.length == 4)
  require .date .fullMonth (month.length == 2)
  require .date .fullDay (day.length == 2)
  let date : Date := ⟨Text.decimalNumber year, Text.decimalNumber month, Text.decimalNumber day⟩
  require .date .monthRange (decide (1 ≤ date.month) && decide (date.month ≤ 12))
  let last := lastDay date.year date.month
  require .date (.dayRange last) (decide (1 ≤ date.day) && decide (date.day ≤ last))
  return date

def readDate (cs : List Char) : Except Malformation (Date × List Char) := do
  let (year, cs) ← readRun .whole .yearOrHour cs
  let cs ← readMark .whole .dateOrTimeMark '-' cs
  let (month, cs) ← readRun .date .month cs
  let cs ← readMark .date .monthMark '-' cs
  let (day, cs) ← readRun .date .day cs
  let date ← dateOf year month day
  return (date, cs)

/-- The digits of the fraction of a second, none if there is no point. -/
def readFraction : List Char → Except Malformation (List Char × List Char)
  | '.' :: rest => readRun .time .fraction rest
  | cs => .ok ([], cs)

/-- The billionths of a second that a fraction denotes; its digits past the ninth are cut off. -/
def nanoseconds (fraction : List Char) : Nat :=
  let kept := fraction.take 9
  Text.decimalNumber kept * Nat.pow 10 (9 - kept.length)

/-- The time of three runs of digits and the digits of a fraction. The second 60 is a leap
second. -/
def timeOf (hour minute second fraction : List Char) : Except Malformation Time := do
  require .time .fullHour (hour.length == 2)
  require .time .fullMinute (minute.length == 2)
  require .time .fullSecond (second.length == 2)
  let time : Time := ⟨Text.decimalNumber hour, Text.decimalNumber minute, Text.decimalNumber second,
    nanoseconds fraction⟩
  require .time .hourRange (decide (time.hour ≤ 23))
  require .time .minuteRange (decide (time.minute ≤ 59))
  require .time .secondRange (decide (time.second ≤ 60))
  return time

def readTime (cs : List Char) : Except Malformation (Time × List Char) := do
  let (hour, cs) ← readRun .time .hour cs
  let cs ← readMark .time .hourMark ':' cs
  let (minute, cs) ← readRun .time .minute cs
  let cs ← readMark .time .minuteMark ':' cs
  let (second, cs) ← readRun .time .second cs
  let (fraction, cs) ← readFraction cs
  let time ← timeOf hour minute second fraction
  return (time, cs)

/-- The offset of two runs of digits after its sign. -/
def offsetOf (negative : Bool) (hours minutes : List Char) : Except Malformation Offset := do
  require .offset .fullHour (hours.length == 2)
  require .offset .fullMinute (minutes.length == 2)
  let h := Text.decimalNumber hours
  let m := Text.decimalNumber minutes
  require .offset .offsetHourRange (decide (h ≤ 23))
  require .offset .offsetMinuteRange (decide (m ≤ 59))
  let total : Int := (h * 60 + m : Nat)
  return .minutes (if negative then -total else total)

def readDistance (negative : Bool) (cs : List Char) :
    Except Malformation (Option Offset × List Char) := do
  let (hours, cs) ← readRun .offset .hour cs
  let cs ← readMark .offset .hourMark ':' cs
  let (minutes, cs) ← readRun .offset .minute cs
  let offset ← offsetOf negative hours minutes
  return (some offset, cs)

def readOffset : List Char → Except Malformation (Option Offset × List Char)
  | 'Z' :: rest => .ok (some .universal, rest)
  | 'z' :: rest => .ok (some .universal, rest)
  | '+' :: rest => readDistance false rest
  | '-' :: rest => readDistance true rest
  | cs => .ok (none, cs)

/-- A character that can stand between date and time. -/
def isTimeMark (c : Char) : Bool := c == 'T' || c == 't' || c == ' '

/-! ## A text of its own -/

/-- Nothing may follow a complete date or time. -/
def complete (datetime : Datetime) (rest : List Char) : Except Malformation Datetime :=
  if rest.isEmpty then .ok datetime else .error ⟨.whole, none⟩

/-- The date and time that a date and the text after its time mark make. -/
def ofTimeAfter (date : Date) (cs : List Char) : Except Malformation Datetime := do
  let (time, cs) ← readTime cs
  match ← readOffset cs with
  | (none, []) => return .both date time none
  | (none, _) => throw ⟨.offset, some .offsetSign⟩
  | (some offset, rest) => complete (.both date time (some offset)) rest

/-- The date or time that a text beginning with a date stands for. -/
def ofDateText (cs : List Char) : Except Malformation Datetime := do
  match ← readDate cs with
  | (date, []) => return .date date
  | (date, mark :: rest) =>
    if isTimeMark mark then ofTimeAfter date rest else throw ⟨.join, some .timeMark⟩

def ofTimeText (cs : List Char) : Except Malformation Datetime := do
  let (time, rest) ← readTime cs
  complete (.time time) rest

/-- The date or time that a text of its own stands for. What follows its first digits decides which
of the two it begins with. -/
def Datetime.ofText (cs : List Char) : Except Malformation Datetime :=
  match cs.takeWhile Text.isAsciiDigit, cs.dropWhile Text.isAsciiDigit with
  | [], _ => .error ⟨.whole, some .yearOrHour⟩
  | _, '-' :: _ => ofDateText cs
  | _, ':' :: _ => ofTimeText cs
  | _, _ => .error ⟨.whole, some .dateOrTimeMark⟩

/-! ## Inside a document -/

/-- Whether a text begins with the hour of a time. -/
def beginsWithHour : List Char → Bool
  | tens :: ones :: ':' :: _ => Text.isAsciiDigit tens && Text.isAsciiDigit ones
  | _ => false

/-- Whether a text begins with the year of a date. -/
def beginsWithYear : List Char → Bool
  | a :: b :: c :: d :: '-' :: _ =>
    Text.isAsciiDigit a && Text.isAsciiDigit b && Text.isAsciiDigit c && Text.isAsciiDigit d
  | _ => false

/-- A time after a date, with its offset if it has one. -/
def readTimeAfter (date : Date) (cs : List Char) : Except Malformation (Datetime × List Char) := do
  let (time, cs) ← readTime cs
  let (offset, cs) ← readOffset cs
  return (.both date time offset, cs)

/-- A date or time inside a document, and the text after it. -/
def readDatetime (cs : List Char) : Except Malformation (Datetime × List Char) := do
  if beginsWithHour cs then
    let (time, rest) ← readTime cs
    return (.time time, rest)
  else
    match ← readDate cs with
    | (date, []) => return (.date date, [])
    | (date, mark :: rest) =>
      if isTimeMark mark && beginsWithHour rest then readTimeAfter date rest
      else return (.date date, mark :: rest)

end Sweep.Toml
