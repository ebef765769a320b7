import Sweep.Proofs.Toml.Scalars

/-!
# The dates that there are

A date or time that is read, as a text of its own or inside a document, has all its parts in range
(`Datetime.Proper`). The converse is the point of the ranges: **a date or time in range is what its
normal text stands for**. So whatever was read can be written, and is then read as the same date or
time.

The normal text of a date or time consists of digits and a few marks, whether its parts are in range
or not.
-/

set_option autoImplicit false

namespace Sweep

namespace Toml

open Datetime (Part Expectation Malformation)

/-! ## Digits of a fixed width -/

theorem digit_of_mem_padded {width n : Nat} : ∀ c ∈ padded width n, Text.isAsciiDigit c = true := by
  intro c hc
  rw [padded, Text.padLeft] at hc
  rcases List.mem_append.1 hc with hc | hc
  · rw [List.eq_of_mem_replicate hc]
    decide
  · exact (Text.digits_spec n).1 c hc

theorem decimalNumber_padded (width n : Nat) : Text.decimalNumber (padded width n) = n := by
  rw [padded, Text.padLeft, Text.decimalNumber_append, Text.decimalNumber_replicate_zero,
    Nat.zero_mul, Nat.zero_add]
  exact (Text.digits_spec n).2

theorem length_padded {width n : Nat} (hw : 0 < width) (h : n < 10 ^ width) :
    (padded width n).length = width := by
  refine Text.length_padLeft '0' ?_
  rw [Text.digits, Nat.length_toDigits_le_iff (by decide) hw]
  exact h

theorem padded_ne_nil {width n : Nat} (hw : 0 < width) (h : n < 10 ^ width) :
    padded width n ≠ [] := by
  intro hnil
  have hlength := length_padded hw h
  rw [hnil] at hlength
  exact absurd hlength (Nat.ne_of_lt hw)

/-- The zeros at the end are all that is taken away. -/
theorem withoutZeros_append (cs : List Char) :
    ∃ count, cs = withoutZeros cs ++ List.replicate count '0' :=
  Text.zeros_at_end cs

theorem mem_of_mem_withoutZeros {cs : List Char} {c : Char} (h : c ∈ withoutZeros cs) : c ∈ cs := by
  rw [withoutZeros, List.mem_reverse] at h
  exact List.mem_reverse.1 ((List.dropWhile_sublist _).mem h)

theorem nanoseconds_lt (fraction : List Char) : nanoseconds fraction < 10 ^ 9 := by
  have hkept : (fraction.take 9).length ≤ 9 := by
    rw [List.length_take]
    exact Nat.min_le_left _ _
  calc nanoseconds fraction
      < 10 ^ (fraction.take 9).length * 10 ^ (9 - (fraction.take 9).length) :=
        Nat.mul_lt_mul_of_pos_right (Text.decimalNumber_lt _) (Nat.pow_pos (by decide))
    _ = 10 ^ 9 := by rw [← Nat.pow_add, Nat.add_sub_cancel' hkept]

/-- **The digits of a fraction without the zeros at its end denote the same fraction.** -/
theorem nanoseconds_withoutZeros {n : Nat} (h : n < 10 ^ 9) :
    nanoseconds (withoutZeros (padded 9 n)) = n := by
  obtain ⟨count, hc⟩ := withoutZeros_append (padded 9 n)
  have hlength : (withoutZeros (padded 9 n)).length + count = 9 := by
    have hsum := congrArg List.length hc
    rw [length_padded (by decide) h, List.length_append, List.length_replicate] at hsum
    exact hsum.symm
  have hcount : 9 - (withoutZeros (padded 9 n)).length = count := by omega
  rw [nanoseconds, List.take_of_length_le (by omega), hcount]
  calc Text.decimalNumber (withoutZeros (padded 9 n)) * 10 ^ count
      = Text.decimalNumber (withoutZeros (padded 9 n) ++ List.replicate count '0') := by
        rw [Text.decimalNumber_append, List.length_replicate,
          Text.decimalNumber_replicate_zero, Nat.add_zero]
    _ = n := by rw [← hc, decimalNumber_padded]

/-! ## Parts in range -/

/-- A day that the calendar has, in a year of four digits. -/
structure Date.Proper (d : Date) : Prop where
  year : d.year < 10 ^ 4
  month : 1 ≤ d.month ∧ d.month ≤ 12
  day : 1 ≤ d.day ∧ d.day ≤ lastDay d.year d.month

/-- A time that a clock shows; its last second may be a leap second. -/
structure Time.Proper (t : Time) : Prop where
  hour : t.hour ≤ 23
  minute : t.minute ≤ 59
  second : t.second ≤ 60
  nanosecond : t.nanosecond < 10 ^ 9

/-- Less than a day of distance. -/
def Offset.Proper : Offset → Prop
  | .universal => True
  | .minutes n => n.natAbs < 24 * 60

/-- A date or time with all its parts in range. -/
def Datetime.Proper : Datetime → Prop
  | .date d => d.Proper
  | .time t => t.Proper
  | .both d t offset => d.Proper ∧ t.Proper ∧ ∀ o ∈ offset, o.Proper

/-! ## What is read is in range -/

theorem lastDay_le (year month : Nat) : lastDay year month ≤ 31 := by
  rw [lastDay]
  split
  · split <;> decide
  · split <;> decide

theorem bind_require_eq_ok_iff {α : Type} {part : Part} {expected : Expectation} {holds : Bool}
    {next : Unit → Except Malformation α} {a : α} :
    (require part expected holds >>= next) = .ok a ↔ holds = true ∧ next () = .ok a := by
  rw [Except.bind_eq_ok_iff]
  constructor
  · rintro ⟨⟨⟩, hr, hn⟩
    exact ⟨require_eq_ok_iff.1 hr, hn⟩
  · rintro ⟨hholds, hn⟩
    exact ⟨(), require_eq_ok_iff.2 hholds, hn⟩

theorem dateOf_eq_ok_iff (year month day : List Char) (d : Date) :
    dateOf year month day = .ok d ↔
      (year.length = 4 ∧ month.length = 2 ∧ day.length = 2) ∧
        (1 ≤ d.month ∧ d.month ≤ 12) ∧ (1 ≤ d.day ∧ d.day ≤ lastDay d.year d.month) ∧
        d = ⟨Text.decimalNumber year, Text.decimalNumber month, Text.decimalNumber day⟩ := by
  rw [dateOf]
  simp only [bind_require_eq_ok_iff, beq_iff_eq, Bool.and_eq_true, decide_eq_true_eq, pure,
    Except.pure, Except.ok.injEq]
  constructor
  · rintro ⟨hyear, hmonth, hday, hm, hd, rfl⟩
    exact ⟨⟨hyear, hmonth, hday⟩, hm, hd, rfl⟩
  · rintro ⟨⟨hyear, hmonth, hday⟩, hm, hd, rfl⟩
    exact ⟨hyear, hmonth, hday, hm, hd, rfl⟩

theorem timeOf_eq_ok_iff (hour minute second fraction : List Char) (t : Time) :
    timeOf hour minute second fraction = .ok t ↔
      (hour.length = 2 ∧ minute.length = 2 ∧ second.length = 2) ∧
        (t.hour ≤ 23 ∧ t.minute ≤ 59 ∧ t.second ≤ 60) ∧
        t = ⟨Text.decimalNumber hour, Text.decimalNumber minute, Text.decimalNumber second,
          nanoseconds fraction⟩ := by
  rw [timeOf]
  simp only [bind_require_eq_ok_iff, beq_iff_eq, decide_eq_true_eq, pure, Except.pure,
    Except.ok.injEq]
  constructor
  · rintro ⟨hhour, hminute, hsecond, hh, hm, hs, rfl⟩
    exact ⟨⟨hhour, hminute, hsecond⟩, ⟨hh, hm, hs⟩, rfl⟩
  · rintro ⟨⟨hhour, hminute, hsecond⟩, ⟨hh, hm, hs⟩, rfl⟩
    exact ⟨hhour, hminute, hsecond, hh, hm, hs, rfl⟩

theorem offsetOf_eq_ok_iff (negative : Bool) (hours minutes : List Char) (offset : Offset) :
    offsetOf negative hours minutes = .ok offset ↔
      (hours.length = 2 ∧ minutes.length = 2) ∧
        (Text.decimalNumber hours ≤ 23 ∧ Text.decimalNumber minutes ≤ 59) ∧
        offset = .minutes (if negative then
          -((Text.decimalNumber hours * 60 + Text.decimalNumber minutes : Nat) : Int)
          else (Text.decimalNumber hours * 60 + Text.decimalNumber minutes : Nat)) := by
  rw [offsetOf]
  simp only [bind_require_eq_ok_iff, beq_iff_eq, decide_eq_true_eq, pure, Except.pure,
    Except.ok.injEq]
  constructor
  · rintro ⟨hhours, hminutes, hh, hm, rfl⟩
    exact ⟨⟨hhours, hminutes⟩, ⟨hh, hm⟩, rfl⟩
  · rintro ⟨⟨hhours, hminutes⟩, ⟨hh, hm⟩, rfl⟩
    exact ⟨hhours, hminutes, hh, hm, rfl⟩

theorem proper_of_readDate {cs after : List Char} {d : Date} (h : readDate cs = .ok (d, after)) :
    d.Proper := by
  obtain ⟨year, _, _, month, _, _, day, -, -, -, -, -, hd⟩ := (readDate_eq_ok_iff _ _ _).1 h
  obtain ⟨⟨hyear, -, -⟩, hm, hday, rfl⟩ := (dateOf_eq_ok_iff _ _ _ _).1 hd
  have hlt := Text.decimalNumber_lt year
  rw [hyear] at hlt
  exact ⟨hlt, hm, hday⟩

theorem proper_of_readTime {cs after : List Char} {t : Time} (h : readTime cs = .ok (t, after)) :
    t.Proper := by
  obtain ⟨_, _, _, _, _, _, _, _, fraction, -, -, -, -, -, -, ht⟩ := (readTime_eq_ok_iff _ _ _).1 h
  obtain ⟨-, ⟨hh, hm, hs⟩, rfl⟩ := (timeOf_eq_ok_iff _ _ _ _ _).1 ht
  exact ⟨hh, hm, hs, nanoseconds_lt fraction⟩

theorem proper_of_readOffset {cs after : List Char} {offset : Option Offset}
    (h : readOffset cs = .ok (offset, after)) :
    ∀ o ∈ offset, o.Proper := by
  obtain ⟨rfl, -⟩ | ⟨_, -, -, rfl⟩ | ⟨_, _, _, -, -, hdistance⟩ := (readOffset_eq_ok_iff _ _ _).1 h
  · rintro o ⟨⟩
  · rintro o ⟨⟩
    trivial
  · obtain ⟨hours, _, _, minutes, distance, -, -, -, ho, rfl⟩ :=
      (readDistance_eq_ok_iff _ _ _ _).1 hdistance
    obtain ⟨-, ⟨hh, hm⟩, rfl⟩ := (offsetOf_eq_ok_iff _ _ _ _).1 ho
    rintro o ⟨⟩
    show Int.natAbs _ < 24 * 60
    split <;> omega

theorem proper_of_readDatetime {cs after : List Char} {d : Datetime}
    (h : readDatetime cs = .ok (d, after)) : d.Proper := by
  obtain ⟨_, rfl, htime⟩ | ⟨_, rfl, hdate⟩ | ⟨_, _, _, _, _, _, rfl, hdate, htime, hoffset⟩ :=
    cases_of_readDatetime h
  · exact proper_of_readTime htime
  · exact proper_of_readDate hdate
  · exact ⟨proper_of_readDate hdate, proper_of_readTime htime, proper_of_readOffset hoffset⟩

/-- A text of its own is read inside a document as what it stands for. -/
theorem proper_of_ofText {cs : List Char} {d : Datetime} (h : Datetime.ofText cs = .ok d) :
    d.Proper :=
  proper_of_readDatetime (readDatetime_of_ofText h ⟨[], .inr (.inr (.inl rfl))⟩).2

/-! ## What is in range is read back -/

theorem readRun_padded (part : Part) (expected : Expectation) {width n : Nat} (hw : 0 < width)
    (hn : n < 10 ^ width) {rest : List Char} (h : ∀ c ∈ rest.head?, Text.isAsciiDigit c = false) :
    readRun part expected (padded width n ++ rest) = .ok (padded width n, rest) := by
  obtain ⟨htake, hdrop⟩ := Key.span_run digit_of_mem_padded h
  exact (readRun_eq_ok_iff _ _ _ _ _).2 ⟨padded_ne_nil hw hn, htake.symm, hdrop.symm⟩

theorem readMark_cons (part : Part) (expected : Expectation) (mark : Char) (rest : List Char) :
    readMark part expected mark (mark :: rest) = .ok rest :=
  (readMark_eq_ok_iff _ _ _ _ _).2 rfl

theorem notDigit_nil :
    ∀ c ∈ ([] : List Char).head?, Text.isAsciiDigit c = false := fun _ hc => absurd hc (by simp)

theorem notDigit_cons {c : Char} (h : Text.isAsciiDigit c = false) (rest : List Char) :
    ∀ d ∈ (c :: rest).head?, Text.isAsciiDigit d = false := by
  rintro d ⟨⟩
  exact h

/-- **A day in range is read back** in front of what is no digit. -/
theorem readDate_text {d : Date} (h : d.Proper) {rest : List Char}
    (hr : ∀ c ∈ rest.head?, Text.isAsciiDigit c = false) :
    readDate (d.text ++ rest) = .ok (d, rest) := by
  have hlast := lastDay_le d.year d.month
  have hmonth : d.month < 10 ^ 2 := by have := h.month; omega
  have hday : d.day < 10 ^ 2 := by have := h.day; omega
  refine (readDate_eq_ok_iff _ _ _).2 ⟨padded 4 d.year, _, _, padded 2 d.month, _, _,
    padded 2 d.day, ?_, readMark_cons _ _ _ _,
    readRun_padded _ _ (by decide) hmonth (notDigit_cons (by decide) _), readMark_cons _ _ _ _,
    readRun_padded _ _ (by decide) hday hr, ?_⟩
  · have htext : d.text ++ rest = padded 4 d.year ++ '-' ::
        (padded 2 d.month ++ '-' :: (padded 2 d.day ++ rest)) := by
      simp [Date.text]
    rw [htext]
    exact readRun_padded _ _ (by decide) h.year (notDigit_cons (by decide) _)
  · refine (dateOf_eq_ok_iff _ _ _ _).2
      ⟨⟨length_padded (by decide) h.year, length_padded (by decide) hmonth,
      length_padded (by decide) hday⟩, h.month, h.day, ?_⟩
    rw [decimalNumber_padded, decimalNumber_padded, decimalNumber_padded]

/-- What follows a time: no digit and no point. -/
def TimeEnds (rest : List Char) : Prop := ∀ c ∈ rest.head?, Text.isAsciiDigit c = false ∧ c ≠ '.'

theorem timeEnds_nil : TimeEnds [] := fun _ hc => absurd hc (by simp)

/-- The fraction of a second as it is written. -/
def fractionText (nanosecond : Nat) : List Char :=
  if nanosecond = 0 then [] else '.' :: withoutZeros (padded 9 nanosecond)

/-- A fraction is read back, and so are its billionths. -/
theorem readFraction_text {n : Nat} (hn : n < 10 ^ 9) {rest : List Char} (h : TimeEnds rest) :
    ∃ fraction, readFraction (fractionText n ++ rest) = .ok (fraction, rest) ∧
      nanoseconds fraction = n := by
  rw [fractionText]
  split
  · next hzero =>
    refine ⟨[], ?_, hzero.symm⟩
    rw [List.nil_append, readFraction.eq_def]
    split
    · exact absurd rfl (h '.' rfl).2
    · rfl
  · next hne =>
    refine ⟨withoutZeros (padded 9 n), ?_, nanoseconds_withoutZeros hn⟩
    obtain ⟨htake, hdrop⟩ :=
      Key.span_run (fun c hc => digit_of_mem_padded c (mem_of_mem_withoutZeros hc))
      (fun c hc => (h c hc).1)
    refine (readRun_eq_ok_iff _ _ _ _ _).2 ⟨?_, htake.symm, hdrop.symm⟩
    intro hnil
    have hvalue := nanoseconds_withoutZeros hn
    rw [hnil] at hvalue
    exact hne hvalue.symm

/-- **A time in range is read back** in front of what does not go on with it. -/
theorem readTime_text {t : Time} (h : t.Proper) {rest : List Char} (hr : TimeEnds rest) :
    readTime (t.text ++ rest) = .ok (t, rest) := by
  have hhour : t.hour < 10 ^ 2 := by have := h.hour; omega
  have hminute : t.minute < 10 ^ 2 := by have := h.minute; omega
  have hsecond : t.second < 10 ^ 2 := by have := h.second; omega
  obtain ⟨fraction, hread, hvalue⟩ := readFraction_text h.nanosecond hr
  refine (readTime_eq_ok_iff _ _ _).2 ⟨padded 2 t.hour, _, _, padded 2 t.minute, _, _,
    padded 2 t.second, _, fraction, ?_, readMark_cons _ _ _ _,
    readRun_padded _ _ (by decide) hminute (notDigit_cons (by decide) _), readMark_cons _ _ _ _,
    readRun_padded _ _ (by decide) hsecond ?_, hread, ?_⟩
  · have htext : t.text ++ rest = padded 2 t.hour ++ ':' ::
        (padded 2 t.minute ++ ':' ::
          (padded 2 t.second ++ (fractionText t.nanosecond ++ rest))) := by
      simp [Time.text, fractionText]
    rw [htext]
    exact readRun_padded _ _ (by decide) hhour (notDigit_cons (by decide) _)
  · rw [fractionText]
    split
    · exact fun c hc => (hr c hc).1
    · exact notDigit_cons (by decide) _
  · refine (timeOf_eq_ok_iff _ _ _ _ _).2
      ⟨⟨length_padded (by decide) hhour, length_padded (by decide) hminute,
      length_padded (by decide) hsecond⟩, ⟨h.hour, h.minute, h.second⟩, ?_⟩
    rw [decimalNumber_padded, decimalNumber_padded, decimalNumber_padded, hvalue]

theorem readOffset_text {offset : Offset} (h : offset.Proper) :
    readOffset offset.text = .ok (some offset, []) := by
  cases offset with
  | universal => rfl
  | minutes n =>
    have hn : n.natAbs < 24 * 60 := h
    have hhours : n.natAbs / 60 < 10 ^ 2 := by omega
    have hminutes : n.natAbs % 60 < 10 ^ 2 := by omega
    have hdistance : ∀ negative, (if negative then -(n.natAbs : Int) else n.natAbs) = n →
        readDistance negative (padded 2 (n.natAbs / 60) ++ ':' :: padded 2 (n.natAbs % 60)) =
          .ok (some (.minutes n), []) := by
      intro negative hsign
      have hlast := readRun_padded .offset .minute (by decide) hminutes notDigit_nil
      rw [List.append_nil] at hlast
      refine (readDistance_eq_ok_iff _ _ _ _).2 ⟨padded 2 (n.natAbs / 60), _, _,
        padded 2 (n.natAbs % 60), _, readRun_padded _ _ (by decide)
          hhours (notDigit_cons (by decide) _), readMark_cons _ _ _ _, hlast, ?_, rfl⟩
      refine (offsetOf_eq_ok_iff _ _ _ _).2
        ⟨⟨length_padded (by decide) hhours, length_padded (by decide) hminutes⟩, ?_, ?_⟩
      · rw [decimalNumber_padded, decimalNumber_padded]
        omega
      · rw [decimalNumber_padded, decimalNumber_padded, Nat.div_add_mod', hsign]
    by_cases hneg : n < 0
    · rw [Offset.text, if_pos hneg]
      exact hdistance true (by rw [if_pos rfl]; omega)
    · rw [Offset.text, if_neg hneg]
      exact hdistance false (by rw [if_neg Bool.false_ne_true]; omega)

theorem head_offset (offset : Offset) :
    ∃ c tail, offset.text = c :: tail ∧ TimeEnds (c :: tail) := by
  cases offset with
  | universal =>
    refine ⟨'Z', [], rfl, ?_⟩
    rintro c ⟨⟩
    decide
  | minutes n =>
    refine ⟨_, _, rfl, ?_⟩
    rintro c ⟨⟩
    split <;> decide

theorem ofTimeAfter_text {date : Date} {t : Time} (ht : t.Proper) {offset : Option Offset}
    (ho : ∀ o ∈ offset, o.Proper) :
    ofTimeAfter date (t.text ++ (offset.map Offset.text).getD []) = .ok (.both date t offset) := by
  rw [ofTimeAfter]
  cases offset with
  | none =>
    have htime := readTime_text ht timeEnds_nil
    exact Except.bind_eq_ok_iff.2 ⟨_, htime, rfl⟩
  | some offset =>
    obtain ⟨c, tail, hhead, hends⟩ := head_offset offset
    have htime := readTime_text ht hends
    have hread := readOffset_text (ho offset rfl)
    rw [hhead] at hread
    rw [Option.map_some, Option.getD_some, hhead]
    refine Except.bind_eq_ok_iff.2 ⟨_, htime, Except.bind_eq_ok_iff.2 ⟨_, hread, rfl⟩⟩

/-- The first digits of a text are followed by the mark that tells dates and times apart. -/
theorem span_padded_mark {width n : Nat} (hw : 0 < width) (hn : n < 10 ^ width) {mark : Char}
    (hm : Text.isAsciiDigit mark = false) (rest : List Char) :
    (padded width n ++ mark :: rest).takeWhile Text.isAsciiDigit = padded width n ∧
      (padded width n ++ mark :: rest).dropWhile Text.isAsciiDigit = mark :: rest ∧
      padded width n ≠ [] := by
  obtain ⟨htake, hdrop⟩ := Key.span_run digit_of_mem_padded (notDigit_cons hm rest)
  exact ⟨htake, hdrop, padded_ne_nil hw hn⟩

theorem ofText_of_date {d : Date} (h : d.Proper) (rest : List Char) :
    Datetime.ofText (d.text ++ rest) = ofDateText (d.text ++ rest) := by
  obtain ⟨htake, hdrop, hne⟩ :=
    span_padded_mark (by decide) h.year (show Text.isAsciiDigit '-' = false by decide)
    (padded 2 d.month ++ '-' :: padded 2 d.day ++ rest)
  have htext : d.text ++ rest = padded 4 d.year ++ '-' ::
      (padded 2 d.month ++ '-' :: padded 2 d.day ++ rest) := by
    simp [Date.text]
  rw [htext, Datetime.ofText, htake, hdrop]
  cases hp : padded 4 d.year with
  | nil => exact absurd hp hne
  | cons c tail => rfl

theorem ofText_of_time {t : Time} (h : t.Proper) : Datetime.ofText t.text = ofTimeText t.text := by
  have hhour : t.hour < 10 ^ 2 := by have := h.hour; omega
  obtain ⟨htake, hdrop, hne⟩ :=
    span_padded_mark (by decide) hhour (show Text.isAsciiDigit ':' = false by decide)
    (padded 2 t.minute ++ ':' :: padded 2 t.second ++ fractionText t.nanosecond)
  have htext : t.text = padded 2 t.hour ++ ':' :: (padded 2 t.minute ++ ':' :: padded 2 t.second ++
      fractionText t.nanosecond) := by
    simp [Time.text, fractionText]
  rw [htext, Datetime.ofText, htake, hdrop]
  cases hp : padded 2 t.hour with
  | nil => exact absurd hp hne
  | cons c tail => rfl

/-- **A date or time in range is what its normal text stands for.** -/
theorem ofText_text {d : Datetime} (h : d.Proper) : Datetime.ofText d.text = .ok d := by
  cases d with
  | date date =>
    have hread := readDate_text (d := date) h notDigit_nil
    have hof := ofText_of_date (d := date) h []
    rw [List.append_nil] at hread hof
    rw [Datetime.text, hof, ofDateText]
    exact Except.bind_eq_ok_iff.2 ⟨_, hread, rfl⟩
  | time time =>
    have hread := readTime_text (t := time) h timeEnds_nil
    rw [List.append_nil] at hread
    rw [Datetime.text, ofText_of_time h, ofTimeText]
    exact Except.bind_eq_ok_iff.2 ⟨_, hread, rfl⟩
  | both date time offset =>
    obtain ⟨hdate, htime, hoffset⟩ := h
    have htext : (Datetime.both date time offset).text =
        date.text ++ 'T' :: (time.text ++ (offset.map Offset.text).getD []) := by
      cases offset <;> simp [Datetime.text]
    rw [htext, ofText_of_date hdate, ofDateText]
    refine Except.bind_eq_ok_iff.2 ⟨_, readDate_text hdate (notDigit_cons (by decide) _), ?_⟩
    exact ofTimeAfter_text htime hoffset

/-- **A date or time is in range exactly if its normal text stands for it.** -/
theorem proper_iff_ofText_text (d : Datetime) : d.Proper ↔ Datetime.ofText d.text = .ok d :=
  ⟨ofText_text, proper_of_ofText⟩

/-! ## The characters of a normal text -/

/-- A digit, or one of the marks between the parts of a date or time. -/
def IsStampChar (c : Char) : Prop := Text.isAsciiDigit c = true ∨ c ∈ ['-', ':', '.', 'T', 'Z', '+']

theorem IsStampChar.of_padded {width n : Nat} {c : Char} (h : c ∈ padded width n) : IsStampChar c :=
  .inl (digit_of_mem_padded c h)

theorem isStampChar_of_date {d : Date} {c : Char} (h : c ∈ d.text) : IsStampChar c := by
  simp only [Date.text, List.mem_append, List.mem_cons] at h
  rcases h with ((h | rfl | h) | rfl | h)
  · exact .of_padded h
  · exact .inr (by simp)
  · exact .of_padded h
  · exact .inr (by simp)
  · exact .of_padded h

theorem isStampChar_of_time {t : Time} {c : Char} (h : c ∈ t.text) : IsStampChar c := by
  simp only [Time.text, List.mem_append, List.mem_cons] at h
  rcases h with (((h | rfl | h) | rfl | h) | h)
  · exact .of_padded h
  · exact .inr (by simp)
  · exact .of_padded h
  · exact .inr (by simp)
  · exact .of_padded h
  · split at h
    · cases h
    · rcases List.mem_cons.1 h with rfl | h
      · exact .inr (by simp)
      · exact .of_padded (mem_of_mem_withoutZeros h)

theorem isStampChar_of_offset {offset : Offset} {c : Char} (h : c ∈ offset.text) :
    IsStampChar c := by
  cases offset with
  | universal =>
    cases List.mem_singleton.1 h
    exact .inr (by simp)
  | minutes n =>
    simp only [Offset.text, List.mem_append, List.mem_cons] at h
    rcases h with ((rfl | h) | rfl | h)
    · split
      · exact .inr (by simp)
      · exact .inr (by simp)
    · exact .of_padded h
    · exact .inr (by simp)
    · exact .of_padded h

theorem isStampChar_of_mem {d : Datetime} {c : Char} (h : c ∈ d.text) : IsStampChar c := by
  have hboth : ∀ {date : Date} {time : Time}, c ∈ date.text ++ 'T' :: time.text →
      IsStampChar c := by
    intro date time h
    rcases List.mem_append.1 h with h | h
    · exact isStampChar_of_date h
    · rcases List.mem_cons.1 h with rfl | h
      · exact .inr (by simp)
      · exact isStampChar_of_time h
  cases d with
  | date date => exact isStampChar_of_date h
  | time time => exact isStampChar_of_time h
  | both date time offset =>
    cases offset with
    | none => exact hboth h
    | some offset =>
      rw [Datetime.text] at h
      rcases List.mem_append.1 h with h | h
      · exact hboth h
      · exact isStampChar_of_offset h

end Toml

end Sweep
