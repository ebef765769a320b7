import Sweep.Text.Numeral

/-!
# Dates and times

A date, a time of day, or both with an optional offset from universal time. There is **one normal
text** for each: `T` between date and time, `Z` for universal time, no zeros at the end of a
fraction, and offsets as hours and minutes. Fractions are kept to nine digits, and further digits
are cut off.

A text that is no date or time is malformed in one of its parts, and where the fault is something
that is missing or out of range, the message says what was expected.
-/

set_option autoImplicit false

namespace Sweep.Toml

/-- A day of the calendar. -/
structure Date where
  year : Nat
  month : Nat
  day : Nat
deriving DecidableEq, Repr

/-- A time of day, with a fraction of the second in billionths. -/
structure Time where
  hour : Nat
  minute : Nat
  second : Nat
  nanosecond : Nat
deriving DecidableEq, Repr

/-- The distance from universal time. -/
inductive Offset where
  | universal
  | minutes (minutes : Int)
deriving DecidableEq, Repr

/-- A date, a time, or both; only both together can have an offset. -/
inductive Datetime where
  | date (date : Date)
  | time (time : Time)
  | both (date : Date) (time : Time) (offset : Option Offset)
deriving DecidableEq, Repr

/-! ## The normal text -/

def padded (width n : Nat) : List Char := Text.padLeft '0' width (Text.digits 10 n)

def withoutZeros (cs : List Char) : List Char := (cs.reverse.dropWhile (· == '0')).reverse

def Date.text (d : Date) :
    List Char := padded 4 d.year ++ '-' :: padded 2 d.month ++ '-' :: padded 2 d.day

def Time.text (t : Time) : List Char :=
  padded 2 t.hour ++ ':' :: padded 2 t.minute ++ ':' :: padded 2 t.second ++
    if t.nanosecond = 0 then [] else '.' :: withoutZeros (padded 9 t.nanosecond)

def Offset.text : Offset → List Char
  | .universal => ['Z']
  | .minutes n =>
    (if n < 0 then '-' else '+') :: padded 2 (n.natAbs / 60) ++ ':' :: padded 2 (n.natAbs % 60)

namespace Datetime

def text : Datetime → List Char
  | .date d => d.text
  | .time t => t.text
  | .both d t none => d.text ++ 'T' :: t.text
  | .both d t (some offset) => d.text ++ 'T' :: t.text ++ offset.text

/-! ## What can be wrong -/

/-- The part of a date or time that a reader is in. -/
inductive Part where
  | whole
  | date
  /-- between the date and the time -/
  | join
  | time
  | offset
deriving DecidableEq, Repr

def Part.name : Part → String
  | .whole => "datetime"
  | .date => "date"
  | .join => "date-time"
  | .time => "time"
  | .offset => "offset"

/-- What should have stood where a reader stopped. The *full* ones ask for a number of digits, the
*range* ones for a value. -/
inductive Expectation where
  | yearOrHour
  | dateOrTimeMark
  | month
  | monthMark
  | day
  | fullYear
  | fullMonth
  | fullDay
  | monthRange
  | dayRange (last : Nat)
  | timeMark
  | hour
  | hourMark
  | minute
  | minuteMark
  | second
  | fraction
  | fullHour
  | fullMinute
  | fullSecond
  | hourRange
  | minuteRange
  | secondRange
  | offsetSign
  | offsetHourRange
  | offsetMinuteRange
deriving DecidableEq, Repr

def Expectation.words : Expectation → String
  | .yearOrHour => "year or hour"
  | .dateOrTimeMark => "`-` (YYYY-MM) or `:` (HH:MM)"
  | .month => "month"
  | .monthMark => "`-` (MM-DD)"
  | .day => "day"
  | .fullYear => "a four-digit year (YYYY)"
  | .fullMonth => "a two-digit month (MM)"
  | .fullDay => "a two-digit day (DD)"
  | .monthRange => "month between 01 and 12"
  | .dayRange last => "day between 01 and " ++ Nat.repr last
  | .timeMark => "`T` between date and time"
  | .hour => "hour"
  | .hourMark => "`:` (HH:MM)"
  | .minute => "minute"
  | .minuteMark => "`:` (MM:SS)"
  | .second => "second"
  | .fraction => "nanosecond"
  | .fullHour => "a two-digit hour (HH)"
  | .fullMinute => "a two-digit minute (MM)"
  | .fullSecond => "a two-digit second (SS)"
  | .hourRange => "hour between 00 and 23"
  | .minuteRange => "minute between 00 and 59"
  | .secondRange => "second between 00 and 60"
  | .offsetSign => "`Z`, +OFFSET, -OFFSET"
  | .offsetHourRange => "hours between 00 and 23"
  | .offsetMinuteRange => "minutes between 00 and 59"

/-- Why a text is no date or time: nothing was expected where text follows a complete one. -/
structure Malformation where
  part : Part
  expected : Option Expectation
deriving DecidableEq, Repr

/-- The words of a message for a malformed date or time. -/
def Malformation.reason (m : Malformation) : String :=
  "invalid " ++ m.part.name ++
    match m.expected with
    | some expected => ", expected " ++ expected.words
    | none => ""

end Datetime

end Sweep.Toml
