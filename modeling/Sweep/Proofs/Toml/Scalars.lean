import Sweep.Proofs.Except
import Sweep.Proofs.Number.ReadBack
import Sweep.Proofs.Toml.Strings

/-!
# Numbers and dates of TOML, read back

Neither a number nor a date has an end of its own, so both are read back in front of what follows a
value in a text that is written here: a comma, a bracket, a break of the line, or a space with the
brace that closes a table in line (`ValueEnds`). None of them goes on with a number or a date.

A date is written as its own text. Whatever text of its own stands for a date is read as that date
inside a document, so nothing has to be said about the digits of a date; a text that was normal is
the one that is written.
-/

set_option autoImplicit false

namespace Sweep

/-- The shortest text without an exponent of a double reads back to it. -/
def Double.TomlReadsBack (x : Double) :
    Prop := Toml.readNumber (Toml.doubleText x) = some (.double x, [])

namespace Toml

/-- What follows a value: a comma, a bracket, a break of the line, or a space with a closing
brace. -/
def ValueEnds (rest : List Char) : Prop :=
  ∃ tail, rest = ',' :: tail ∨ rest = ']' :: tail ∨ rest = '\n' :: tail ∨
    rest = ' ' :: '\x7d' :: tail

theorem ValueEnds.head {rest : List Char} (h : ValueEnds rest) :
    ∀ c ∈ rest.head?, c ∈ [',', ']', '\n', ' '] := by
  obtain ⟨tail, rfl | rfl | rfl | rfl⟩ := h <;> (rintro c ⟨⟩; decide)

theorem ValueEnds.noQuote {rest : List Char} (h : ValueEnds rest) {q : Char}
    (hq : q ∉ [',', ']', '\n', ' ']) : NoQuote q rest := by
  rintro c hc rfl
  exact hq (h.head c hc)

theorem ValueEnds.notDigit {rest : List Char} (h : ValueEnds rest) :
    ∀ c ∈ rest.head?, Text.isAsciiDigit c = false := by
  have hall : ∀ c ∈ [',', ']', '\n', ' '], Text.isAsciiDigit c = false := by
    simp [Text.isAsciiDigit]
  exact fun c hc => hall c (h.head c hc)

theorem ValueEnds.ne_of_cons {c : Char} {rest : List Char} (h : ValueEnds (c :: rest))
    (other : Char) (ho : other ∉ [',', ']', '\n', ' ']) : c ≠ other := by
  rintro rfl
  exact ho (h.head c rfl)

/-! ## Dates and times -/

open Datetime (Part Expectation Malformation)

/-- What a reader takes from a text it also takes if the text goes on with the end of a value. -/
def ReadsOn {α : Type} (read : List Char → Except Malformation (α × List Char)) : Prop :=
  ∀ {cs after rest : List Char} {a : α}, ValueEnds rest → read cs = .ok (a, after) →
    read (cs ++ rest) = .ok (a, after ++ rest)

theorem readRun_eq_ok_iff (part : Part) (expected : Expectation) (cs run after : List Char) :
    readRun part expected cs = .ok (run, after) ↔
      run ≠ [] ∧ run = cs.takeWhile Text.isAsciiDigit ∧ after = cs.dropWhile Text.isAsciiDigit := by
  rw [readRun.eq_def]
  split
  · next hnil =>
    rw [hnil]
    constructor
    · rintro ⟨⟩
    · rintro ⟨hne, rfl, -⟩
      exact absurd rfl hne
  · next hne =>
    constructor
    · rintro ⟨⟩
      exact ⟨hne, rfl, rfl⟩
    · rintro ⟨-, rfl, rfl⟩
      rfl

theorem readMark_eq_ok_iff (part : Part) (expected : Expectation) (mark : Char)
    (cs after : List Char) :
    readMark part expected mark cs = .ok after ↔ cs = mark :: after := by
  cases cs with
  | nil => simp [readMark]
  | cons c rest =>
    rw [readMark]
    by_cases hc : c = mark
    · simp [hc]
    · simp [hc]

theorem readsOn_readRun (part : Part) (expected : Expectation) :
    ReadsOn (readRun part expected) := by
  intro cs after rest run he h
  obtain ⟨hne, rfl, rfl⟩ := (readRun_eq_ok_iff _ _ _ _ _).1 h
  obtain ⟨htake, hdrop⟩ := Text.span_append cs he.notDigit
  exact (readRun_eq_ok_iff _ _ _ _ _).2 ⟨hne, htake.symm, hdrop.symm⟩

theorem readMark_append {part : Part} {expected : Expectation} {mark : Char} {cs after : List Char}
    (h : readMark part expected mark cs = .ok after) (rest : List Char) :
    readMark part expected mark (cs ++ rest) = .ok (after ++ rest) := by
  rw [(readMark_eq_ok_iff _ _ _ _ _).1 h]
  exact (readMark_eq_ok_iff _ _ _ _ _).2 rfl

theorem readDate_eq_ok_iff (cs after : List Char) (date : Date) :
    readDate cs = .ok (date, after) ↔
      ∃ year cs₁ cs₂ month cs₃ cs₄ day, readRun .whole .yearOrHour cs = .ok (year, cs₁) ∧
        readMark .whole .dateOrTimeMark '-' cs₁ = .ok cs₂ ∧
        readRun .date .month cs₂ = .ok (month, cs₃) ∧ readMark .date .monthMark '-' cs₃ = .ok cs₄ ∧
        readRun .date .day cs₄ = .ok (day, after) ∧ dateOf year month day = .ok date := by
  rw [readDate]
  simp only [Except.bind_eq_ok_iff, Prod.exists, pure, Except.pure, Except.ok.injEq, Prod.mk.injEq]
  constructor
  · rintro ⟨year, cs₁, hyear, cs₂, hmark, month, cs₃, hmonth, cs₄, hmark', day, cs₅, hday,
      d, hd, rfl, rfl⟩
    exact ⟨year, cs₁, cs₂, month, cs₃, cs₄, day, hyear, hmark, hmonth, hmark', hday, hd⟩
  · rintro ⟨year, cs₁, cs₂, month, cs₃, cs₄, day, hyear, hmark, hmonth, hmark', hday, hd⟩
    exact ⟨year, cs₁, hyear, cs₂, hmark, month, cs₃, hmonth, cs₄, hmark', day, after, hday,
      date, hd, rfl, rfl⟩

theorem readsOn_readDate : ReadsOn readDate := by
  intro cs after rest date he h
  obtain ⟨year, cs₁, cs₂, month, cs₃, cs₄, day, hyear, hmark, hmonth, hmark', hday, hd⟩ :=
    (readDate_eq_ok_iff _ _ _).1 h
  exact (readDate_eq_ok_iff _ _ _).2 ⟨year, _, _, month, _, _, day, readsOn_readRun _ _ he hyear,
    readMark_append hmark rest, readsOn_readRun _ _ he hmonth, readMark_append hmark' rest,
    readsOn_readRun _ _ he hday, hd⟩

theorem readsOn_readFraction : ReadsOn readFraction := by
  intro cs after rest digits he h
  cases cs with
  | nil =>
    cases h
    rw [List.nil_append, readFraction.eq_def]
    split
    · exact absurd rfl (he.ne_of_cons '.' (by decide))
    · rfl
  | cons c tail =>
    rw [readFraction.eq_def] at h
    split at h
    · next hc =>
      cases hc
      exact readsOn_readRun _ _ he h
    · next hne =>
      cases h
      rw [List.cons_append, readFraction.eq_def]
      split
      · next hc =>
        cases hc
        exact absurd rfl (hne tail)
      · rfl

theorem readTime_eq_ok_iff (cs after : List Char) (time : Time) :
    readTime cs = .ok (time, after) ↔
      ∃ hour cs₁ cs₂ minute cs₃ cs₄ second cs₅ fraction, readRun .time .hour cs = .ok (hour, cs₁) ∧
        readMark .time .hourMark ':' cs₁ = .ok cs₂ ∧ readRun .time .minute cs₂ = .ok (minute, cs₃) ∧
        readMark .time .minuteMark ':' cs₃ = .ok cs₄ ∧
        readRun .time .second cs₄ = .ok (second, cs₅) ∧ readFraction cs₅ = .ok (fraction, after) ∧
        timeOf hour minute second fraction = .ok time := by
  rw [readTime]
  simp only [Except.bind_eq_ok_iff, Prod.exists, pure, Except.pure, Except.ok.injEq, Prod.mk.injEq]
  constructor
  · rintro ⟨hour, cs₁, hhour, cs₂, hmark, minute, cs₃, hminute, cs₄, hmark', second, cs₅, hsecond,
      fraction, cs₆, hfraction, t, ht, rfl, rfl⟩
    exact ⟨hour, cs₁, cs₂, minute, cs₃, cs₄, second, cs₅, fraction, hhour, hmark, hminute, hmark',
      hsecond, hfraction, ht⟩
  · rintro ⟨hour, cs₁, cs₂, minute, cs₃, cs₄, second, cs₅, fraction, hhour, hmark, hminute, hmark',
      hsecond, hfraction, ht⟩
    exact ⟨hour, cs₁, hhour, cs₂, hmark, minute, cs₃, hminute, cs₄, hmark', second, cs₅, hsecond,
      fraction, after, hfraction, time, ht, rfl, rfl⟩

theorem readsOn_readTime : ReadsOn readTime := by
  intro cs after rest time he h
  obtain ⟨hour, cs₁, cs₂, minute, cs₃, cs₄, second, cs₅, fraction, hhour, hmark, hminute, hmark',
      hsecond, hfraction, ht⟩ :=
    (readTime_eq_ok_iff _ _ _).1 h
  exact (readTime_eq_ok_iff _ _ _).2 ⟨hour, _, _, minute, _, _, second, _, fraction,
    readsOn_readRun _ _ he hhour, readMark_append hmark rest, readsOn_readRun _ _ he hminute,
    readMark_append hmark' rest, readsOn_readRun _ _ he hsecond,
    readsOn_readFraction he hfraction, ht⟩

theorem readDistance_eq_ok_iff (negative : Bool) (cs after : List Char) (offset : Option Offset) :
    readDistance negative cs = .ok (offset, after) ↔
      ∃ hours cs₁ cs₂ minutes distance, readRun .offset .hour cs = .ok (hours, cs₁) ∧
        readMark .offset .hourMark ':' cs₁ = .ok cs₂ ∧
        readRun .offset .minute cs₂ = .ok (minutes, after) ∧
        offsetOf negative hours minutes = .ok distance ∧ offset = some distance := by
  rw [readDistance]
  simp only [Except.bind_eq_ok_iff, Prod.exists, pure, Except.pure, Except.ok.injEq, Prod.mk.injEq]
  constructor
  · rintro ⟨hours, cs₁, hhours, cs₂, hmark, minutes, cs₃, hminutes, distance, hd, rfl, rfl⟩
    exact ⟨hours, cs₁, cs₂, minutes, distance, hhours, hmark, hminutes, hd, rfl⟩
  · rintro ⟨hours, cs₁, cs₂, minutes, distance, hhours, hmark, hminutes, hd, rfl⟩
    exact ⟨hours, cs₁, hhours, cs₂, hmark, minutes, after, hminutes, distance, hd, rfl, rfl⟩

theorem readsOn_readDistance (negative : Bool) : ReadsOn (readDistance negative) := by
  intro cs after rest offset he h
  obtain ⟨hours, cs₁, cs₂, minutes, distance, hhours, hmark, hminutes, hd, ho⟩ :=
    (readDistance_eq_ok_iff _ _ _ _).1 h
  exact (readDistance_eq_ok_iff _ _ _ _).2 ⟨hours, _, _, minutes, distance,
    readsOn_readRun _ _ he hhours, readMark_append hmark rest,
    readsOn_readRun _ _ he hminutes, hd, ho⟩

/-- An offset is missing, or one letter, or a distance after its sign. -/
theorem readOffset_eq_ok_iff (cs after : List Char) (offset : Option Offset) :
    readOffset cs = .ok (offset, after) ↔
      (offset = none ∧ cs = after ∧ ∀ c ∈ cs.head?, c ∉ ['Z', 'z', '+', '-']) ∨
        (∃ letter ∈ ['Z', 'z'], cs = letter :: after ∧ offset = some .universal) ∨
        ∃ sign negative rest, (sign, negative) ∈ [('+', false), ('-', true)] ∧ cs = sign :: rest ∧
          readDistance negative rest = .ok (offset, after) := by
  constructor
  · intro h
    rw [readOffset.eq_def] at h
    split at h
    · cases h
      exact .inr (.inl ⟨'Z', by decide, rfl, rfl⟩)
    · cases h
      exact .inr (.inl ⟨'z', by decide, rfl, rfl⟩)
    · exact .inr (.inr ⟨'+', false, _, by decide, rfl, h⟩)
    · exact .inr (.inr ⟨'-', true, _, by decide, rfl, h⟩)
    · next hZ hz hplus hminus =>
      cases h
      refine .inl ⟨rfl, rfl, fun c hc => ?_⟩
      obtain ⟨tail, rfl⟩ := List.head?_eq_some_iff.1 hc
      simp only [List.mem_cons, List.not_mem_nil, or_false, not_or]
      exact ⟨fun h => hZ tail (h ▸ rfl), fun h => hz tail (h ▸ rfl), fun h => hplus tail (h ▸ rfl),
        fun h => hminus tail (h ▸ rfl)⟩
  · rintro (⟨rfl, rfl, hhead⟩ | ⟨letter, hm, rfl, rfl⟩ | ⟨sign, negative, rest, hm, rfl, hdistance⟩)
    · rw [readOffset.eq_def]
      split
      · exact absurd (by decide) (hhead 'Z' rfl)
      · exact absurd (by decide) (hhead 'z' rfl)
      · exact absurd (by decide) (hhead '+' rfl)
      · exact absurd (by decide) (hhead '-' rfl)
      · rfl
    · rcases List.mem_pair.1 hm with rfl | rfl <;> rfl
    · rcases List.mem_pair.1 hm with he | he <;> cases he <;> exact hdistance

theorem readsOn_readOffset : ReadsOn readOffset := by
  intro cs after rest offset he h
  rw [readOffset_eq_ok_iff] at h ⊢
  obtain ⟨ho, rfl, hhead⟩ | ⟨letter, hm, rfl, ho⟩ | ⟨sign, negative, more, hm, rfl, hdistance⟩ := h
  · refine .inl ⟨ho, rfl, ?_⟩
    cases cs with
    | nil =>
      intro c hc hm
      have hends := he.head c hc
      simp only [List.mem_cons, List.not_mem_nil, or_false] at hends hm
      rcases hends with rfl | rfl | rfl | rfl <;> exact absurd hm (by decide)
    | cons first tail => exact hhead
  · exact .inr (.inl ⟨letter, hm, rfl, ho⟩)
  · exact .inr (.inr ⟨sign, negative, more ++ rest, hm, rfl,
      readsOn_readDistance negative he hdistance⟩)

theorem readTimeAfter_eq_ok_iff (date : Date) (cs after : List Char) (d : Datetime) :
    readTimeAfter date cs = .ok (d, after) ↔
      ∃ time cs₁ offset, readTime cs = .ok (time, cs₁) ∧ readOffset cs₁ = .ok (offset, after) ∧
        d = .both date time offset := by
  rw [readTimeAfter]
  simp only [Except.bind_eq_ok_iff, Prod.exists, pure, Except.pure, Except.ok.injEq, Prod.mk.injEq]
  constructor
  · rintro ⟨time, cs₁, htime, offset, cs₂, hoffset, rfl, rfl⟩
    exact ⟨time, cs₁, offset, htime, hoffset, rfl⟩
  · rintro ⟨time, cs₁, offset, htime, hoffset, rfl⟩
    exact ⟨time, cs₁, htime, offset, after, hoffset, rfl, rfl⟩

/-- What is read inside a document is a time, a date, or a date with a time and its offset after a
mark. -/
theorem cases_of_readDatetime {cs after : List Char} {d : Datetime}
    (h : readDatetime cs = .ok (d, after)) :
    (∃ time, d = .time time ∧ readTime cs = .ok (time, after)) ∨
      (∃ date, d = .date date ∧ readDate cs = .ok (date, after)) ∨
      ∃ date mark cs₁ time cs₂ offset, d = .both date time offset ∧
        readDate cs = .ok (date, mark :: cs₁) ∧ readTime cs₁ = .ok (time, cs₂) ∧
        readOffset cs₂ = .ok (offset, after) := by
  rw [readDatetime] at h
  split at h
  · obtain ⟨⟨time, rest⟩, htime, h⟩ := Except.bind_eq_ok_iff.1 h
    cases h
    exact .inl ⟨time, rfl, htime⟩
  · obtain ⟨⟨date, rest⟩, hdate, h⟩ := Except.bind_eq_ok_iff.1 h
    right
    cases rest with
    | nil =>
      cases h
      exact .inl ⟨date, rfl, hdate⟩
    | cons mark cs₁ =>
      simp only at h
      split at h
      · obtain ⟨time, cs₂, offset, htime, hoffset, rfl⟩ := (readTimeAfter_eq_ok_iff _ _ _ _).1 h
        exact .inr ⟨date, mark, cs₁, time, cs₂, offset, rfl, hdate, htime, hoffset⟩
      · cases h
        exact .inl ⟨date, rfl, hdate⟩

theorem require_eq_ok_iff {part : Part} {expected : Expectation} {holds : Bool} :
    require part expected holds = .ok () ↔ holds = true := by
  cases holds <;> simp [require]

/-- The digits that a run takes stand in front of the rest. -/
theorem split_of_readRun {part : Part} {expected : Expectation} {cs run after : List Char}
    (h : readRun part expected cs = .ok (run, after)) :
    cs = run ++ after ∧ ∀ c ∈ run, Text.isAsciiDigit c = true := by
  obtain ⟨-, rfl, rfl⟩ := (readRun_eq_ok_iff _ _ _ _ _).1 h
  exact ⟨List.takeWhile_append_dropWhile.symm, fun c hc => List.mem_takeWhile_imp hc⟩

theorem beginsWithHour_of_readTime {cs after : List Char} {time : Time}
    (h : readTime cs = .ok (time, after)) (rest : List Char) :
    beginsWithHour (cs ++ rest) = true := by
  obtain ⟨hour, cs₁, cs₂, minute, cs₃, cs₄, second, cs₅, fraction, hhour, hmark, -, -, -, -, ht⟩ :=
    (readTime_eq_ok_iff _ _ _).1 h
  obtain ⟨rfl, hd⟩ := split_of_readRun hhour
  obtain rfl := (readMark_eq_ok_iff _ _ _ _ _).1 hmark
  have hlength : hour.length = 2 := by
    rw [timeOf] at ht
    obtain ⟨_, hr, -⟩ := Except.bind_eq_ok_iff.1 ht
    exact beq_iff_eq.1 (require_eq_ok_iff.1 hr)
  obtain ⟨tens, ones, rfl⟩ := List.length_eq_two.1 hlength
  rw [List.forall_mem_cons, List.forall_mem_singleton] at hd
  simp only [List.cons_append, List.nil_append, beginsWithHour, hd.1, hd.2, Bool.and_self]

theorem beginsWithYear_of_readDate {cs after : List Char} {date : Date}
    (h : readDate cs = .ok (date, after)) (rest : List Char) :
    beginsWithHour (cs ++ rest) = false ∧ beginsWithYear (cs ++ rest) = true := by
  obtain ⟨year, cs₁, cs₂, month, cs₃, cs₄, day, hyear, hmark, -, -, -, hd⟩ :=
    (readDate_eq_ok_iff _ _ _).1 h
  obtain ⟨rfl, hdigits⟩ := split_of_readRun hyear
  obtain rfl := (readMark_eq_ok_iff _ _ _ _ _).1 hmark
  have hlength : year.length = 4 := by
    rw [dateOf] at hd
    obtain ⟨_, hr, -⟩ := Except.bind_eq_ok_iff.1 hd
    exact beq_iff_eq.1 (require_eq_ok_iff.1 hr)
  match year, hlength with
  | [a, b, c, d], _ =>
    simp only [List.mem_cons, List.not_mem_nil, or_false, forall_eq_or_imp, forall_eq] at hdigits
    obtain ⟨ha, hb, hc, hd⟩ := hdigits
    have hne : c ≠ ':' := Text.ne_of_digit hc rfl
    refine ⟨?_, ?_⟩
    · rw [beginsWithHour.eq_def]
      split
      · next he =>
        cases he
        exact absurd rfl hne
      · rfl
    · simp only [List.cons_append, List.nil_append, beginsWithYear, ha, hb, hc, hd, Bool.and_self]

/-- A date that nothing but the end of a value follows has no time after it. -/
theorem ValueEnds.noTime {c : Char} {rest : List Char} (h : ValueEnds (c :: rest)) :
    (isTimeMark c && beginsWithHour rest) = false := by
  obtain ⟨tail, he | he | he | he⟩ := h <;> cases he <;> try rfl
  cases tail with
  | nil => rfl
  | cons d tail =>
    rw [beginsWithHour.eq_def]
    split
    · next he =>
      cases he
      rfl
    · rfl

theorem readDatetime_of_ofTimeAfter {date : Date} {cs : List Char} {d : Datetime}
    (h : ofTimeAfter date cs = .ok d) {rest : List Char} (he : ValueEnds rest) :
    readTimeAfter date (cs ++ rest) = .ok (d, rest) := by
  rw [ofTimeAfter] at h
  obtain ⟨⟨time, cs₁⟩, htime, h⟩ := Except.bind_eq_ok_iff.1 h
  obtain ⟨⟨offset, cs₂⟩, hoffset, h⟩ := Except.bind_eq_ok_iff.1 h
  have hread : cs₂ = [] ∧ d = .both date time offset := by
    cases offset with
    | none =>
      cases cs₂ with
      | nil =>
        cases h
        exact ⟨rfl, rfl⟩
      | cons c tail => cases h
    | some offset =>
      cases cs₂ with
      | nil =>
        cases h
        exact ⟨rfl, rfl⟩
      | cons c tail => cases h
  obtain ⟨rfl, rfl⟩ := hread
  have hoffset' := readsOn_readOffset he hoffset
  rw [List.nil_append] at hoffset'
  exact (readTimeAfter_eq_ok_iff _ _ _ _).2 ⟨time, _, offset, readsOn_readTime he htime,
    hoffset', rfl⟩

theorem readDatetime_of_ofTimeText {cs : List Char} {d : Datetime} (h : ofTimeText cs = .ok d)
    {rest : List Char} (he : ValueEnds rest) :
    beginsWithHour (cs ++ rest) = true ∧ readDatetime (cs ++ rest) = .ok (d, rest) := by
  rw [ofTimeText] at h
  obtain ⟨⟨time, after⟩, htime, h⟩ := Except.bind_eq_ok_iff.1 h
  have hafter : after = [] ∧ d = .time time := by
    cases after with
    | nil =>
      cases h
      exact ⟨rfl, rfl⟩
    | cons c tail => cases h
  obtain ⟨rfl, rfl⟩ := hafter
  have hhour := beginsWithHour_of_readTime htime rest
  refine ⟨hhour, ?_⟩
  rw [readDatetime, if_pos hhour]
  exact Except.bind_eq_ok_iff.2 ⟨_, readsOn_readTime he htime, rfl⟩

theorem readDatetime_of_ofDateText {cs : List Char} {d : Datetime} (h : ofDateText cs = .ok d)
    {rest : List Char} (he : ValueEnds rest) :
    beginsWithYear (cs ++ rest) = true ∧ readDatetime (cs ++ rest) = .ok (d, rest) := by
  rw [ofDateText] at h
  obtain ⟨⟨date, after⟩, hdate, h⟩ := Except.bind_eq_ok_iff.1 h
  obtain ⟨hhour, hyear⟩ := beginsWithYear_of_readDate hdate rest
  refine ⟨hyear, ?_⟩
  rw [readDatetime, hhour]
  refine Except.bind_eq_ok_iff.2 ⟨_, readsOn_readDate he hdate, ?_⟩
  cases after with
  | nil =>
    cases h
    cases rest with
    | nil => rfl
    | cons c tail =>
      -- a space and an hour would go on with the date, but no value is followed by both
      simp only [List.nil_append, he.noTime]
      rfl
  | cons mark more =>
    simp only at h
    split at h
    · next hmark =>
      have hbegins : beginsWithHour (more ++ rest) = true := by
        rw [ofTimeAfter] at h
        obtain ⟨⟨time, cs₁⟩, htime, -⟩ := Except.bind_eq_ok_iff.1 h
        exact beginsWithHour_of_readTime htime rest
      simp only [List.cons_append, hmark, hbegins, Bool.and_self, if_true]
      exact readDatetime_of_ofTimeAfter h he
    · cases h

/-- **A text of its own that stands for a date or time is read as that inside a document**, in front
of the end of a value. -/
theorem readDatetime_of_ofText {cs : List Char} {d : Datetime} (h : Datetime.ofText cs = .ok d)
    {rest : List Char} (he : ValueEnds rest) :
    (beginsWithHour (cs ++ rest) || beginsWithYear (cs ++ rest)) = true ∧
      readDatetime (cs ++ rest) = .ok (d, rest) := by
  rw [Datetime.ofText.eq_def] at h
  split at h
  · cases h
  · obtain ⟨hyear, hread⟩ := readDatetime_of_ofDateText h he
    exact ⟨by rw [hyear, Bool.or_true], hread⟩
  · obtain ⟨hhour, hread⟩ := readDatetime_of_ofTimeText h he
    exact ⟨by rw [hhour, Bool.true_or], hread⟩
  · cases h

theorem digit_of_begins {cs : List Char} (h : (beginsWithHour cs || beginsWithYear cs) = true) :
    ∃ c tail, cs = c :: tail ∧ Text.isAsciiDigit c = true := by
  rw [Bool.or_eq_true] at h
  rcases h with h | h
  · rw [beginsWithHour.eq_def] at h
    split at h
    · rw [Bool.and_eq_true] at h
      exact ⟨_, _, rfl, h.1⟩
    · exact absurd h (by simp)
  · rw [beginsWithYear.eq_def] at h
    split at h
    · simp only [Bool.and_eq_true] at h
      exact ⟨_, _, rfl, h.1.1.1⟩
    · exact absurd h (by simp)

/-- A text of a date or time begins with a digit. -/
theorem digit_of_ofText {cs : List Char} {d : Datetime} (h : Datetime.ofText cs = .ok d) :
    ∃ c tail, cs = c :: tail ∧ Text.isAsciiDigit c = true := by
  have hends : ValueEnds ['\n'] := ⟨[], .inr (.inr (.inl rfl))⟩
  obtain ⟨c, tail, hc, hd⟩ := digit_of_begins (readDatetime_of_ofText h hends).1
  cases cs with
  | nil =>
    cases hc
    exact absurd hd (by decide)
  | cons first more =>
    cases hc
    exact ⟨c, more, rfl, hd⟩

/-! ## Numbers -/

/-- Text that no number goes on with: no digit, no part of a number, and no mark of another base or
of a date. -/
def NumberEnds (rest : List Char) : Prop :=
  ∀ c ∈ rest.head?, Text.isAsciiDigit c = false ∧ c ∉ ['_', '.', 'e', 'E', 'x', 'o', 'b', ':', '-']

theorem ValueEnds.number {rest : List Char} (h : ValueEnds rest) : NumberEnds rest := by
  have hall : ∀ c ∈ [',', ']', '\n', ' '], c ∉ ['_', '.', 'e', 'E', 'x', 'o', 'b', ':', '-'] := by
    simp
  exact fun c hc => ⟨h.notDigit c hc, hall c (h.head c hc)⟩

theorem numberEnds_nil : NumberEnds [] := fun _ hc => absurd hc (by simp)

theorem NumberEnds.ne_of_cons {c : Char} {rest : List Char} (h : NumberEnds (c :: rest))
    (other : Char) (ho : other ∈ ['_', '.', 'e', 'E', 'x', 'o', 'b', ':', '-']) : c ≠ other := by
  rintro rfl
  exact (h c rfl).2 ho

/-- Digits are read up to what is neither one nor an underscore. -/
theorem readMoreDigits_run {run rest : List Char} (hr : ∀ c ∈ run, Text.isAsciiDigit c = true)
    (h : ∀ c ∈ rest.head?, Text.isAsciiDigit c = false ∧ c ≠ '_') :
    readMoreDigits Text.isAsciiDigit (run ++ rest) = some (run, rest) := by
  induction run with
  | nil =>
    cases rest with
    | nil => rfl
    | cons c tail =>
      obtain ⟨hd, hu⟩ := h c rfl
      rw [List.nil_append, readMoreDigits, if_neg (by rw [hd]; exact Bool.false_ne_true), if_neg hu]
      rintro d rest rfl
      exact absurd rfl hu
  | cons c run ih =>
    obtain ⟨hc, hrun⟩ := List.forall_mem_cons.1 hr
    have hu : c ≠ '_' := Text.ne_of_digit hc rfl
    rw [List.cons_append, readMoreDigits, if_pos hc, ih hrun]
    · rfl
    · rintro d tail rfl
      exact absurd rfl hu

theorem readDigits_run {run rest : List Char} (hne : run ≠ [])
    (hr : ∀ c ∈ run, Text.isAsciiDigit c = true)
    (h : ∀ c ∈ rest.head?, Text.isAsciiDigit c = false ∧ c ≠ '_') :
    readDigits Text.isAsciiDigit (run ++ rest) = some (run, rest) := by
  cases run with
  | nil => exact absurd rfl hne
  | cons c run =>
    obtain ⟨hc, hrun⟩ := List.forall_mem_cons.1 hr
    rw [List.cons_append, readDigits, if_pos hc, readMoreDigits_run hrun h]
    rfl

theorem readFront_run {front rest : List Char} (h : FrontDigits front)
    (hr : ∀ c ∈ rest.head?, Text.isAsciiDigit c = false ∧ c ≠ '_') :
    readFront (front ++ rest) = some (front, rest) := by
  rcases h.head with rfl | ⟨c, tail, rfl, hc⟩
  · rfl
  · rw [List.cons_append, readFront]
    · exact readDigits_run (List.cons_ne_nil _ _) h.digits hr
    · rintro more he
      exact hc (List.cons.inj he).1

/-- A number begins with its sign and digits, which are taken for nothing else. -/
theorem readNumber_front (negative : Bool) {front rest : List Char} (h : FrontDigits front)
    (hr : ∀ c ∈ rest.head?, c ∉ ['x', 'o', 'b']) :
    readNumber ((if negative then ['-'] else []) ++ (front ++ rest)) =
      readMagnitude negative (front ++ rest) := by
  obtain ⟨c, tail, rfl, hc⟩ := h.exists_cons
  have hfinite : ∀ more, readNotFinite (c :: more) = none := by
    intro more
    have hword : ∀ word : List Char,
        ∀ first rest, word = first :: rest → c ≠ first → afterWord? word (c :: more) = none := by
      rintro word first rest rfl hne
      rw [afterWord?, List.isPrefixOf, beq_eq_false_iff_ne.2 (Ne.symm hne)]
      rfl
    rw [readNotFinite, hword _ 'i' _ rfl (Text.ne_of_digit hc rfl),
      hword _ 'n' _ rfl (Text.ne_of_digit hc rfl)]
    rfl
  cases negative with
  | true =>
    rw [if_pos rfl, List.singleton_append, readNumber]
    · simp only [readSign, List.cons_append, hfinite, Option.none_or]
    all_goals
      intro more he
      exact absurd (List.cons.inj he).1 (by decide)
  | false =>
    have hsign : ∀ more, readSign (c :: more) = (false, c :: more) := by
      intro more
      rw [readSign.eq_def]
      split
      · next he => cases he; exact absurd rfl (Text.ne_of_digit hc rfl)
      · next he => cases he; exact absurd rfl (Text.ne_of_digit hc rfl)
      · rfl
    -- a zero in front of a letter would be the mark of another base
    have hmark : ∀ mark ∈ ['x', 'o', 'b'], ∀ more, c :: tail ++ rest ≠ '0' :: mark :: more := by
      intro mark hm more he
      obtain ⟨rfl, htail⟩ := List.cons.inj he
      rcases h.head with hz | ⟨d, other, hd, hne⟩
      · obtain rfl := (List.cons.inj hz).2
        have hrest : rest = mark :: more := htail
        exact hr mark (by rw [hrest]; rfl) hm
      · exact hne (List.cons.inj hd).1.symm
    rw [if_neg Bool.false_ne_true, List.nil_append, readNumber]
    · simp only [List.cons_append, hsign, hfinite, Option.none_or]
    · exact fun more => hmark 'x' (by decide) more
    · exact fun more => hmark 'o' (by decide) more
    · exact fun more => hmark 'b' (by decide) more

/-- A number is never taken for a date: its digits are followed by no mark of one. -/
theorem notDatetime_of_run {run rest : List Char} (hr : ∀ c ∈ run, Text.isAsciiDigit c = true)
    (h : ∀ c ∈ rest.head?, Text.isAsciiDigit c = false ∧ c ≠ ':' ∧ c ≠ '-') :
    (beginsWithHour (run ++ rest) || beginsWithYear (run ++ rest)) = false := by
  have hmark : ∀ mark, Text.isAsciiDigit mark = false → mark = ':' ∨ mark = '-' →
      ∀ front tail, run ++ rest = front ++ mark :: tail →
        (∀ c ∈ front, Text.isAsciiDigit c = true) → False := by
    intro mark hd hm front tail he hfront
    have hstop : ∀ c ∈ (mark :: tail).head?, Text.isAsciiDigit c = false := by
      rintro c ⟨⟩
      exact hd
    have hspan := Key.span_run hfront hstop
    have hspan' := Key.span_run hr fun c hc => (h c hc).1
    rw [← he, hspan'.2] at hspan
    have hhead := h mark (by rw [hspan.2]; rfl)
    rcases hm with rfl | rfl
    · exact hhead.2.1 rfl
    · exact hhead.2.2 rfl
  rw [Bool.or_eq_false_iff, ← Bool.not_eq_true, ← Bool.not_eq_true]
  constructor
  · intro hb
    rw [beginsWithHour.eq_def] at hb
    split at hb
    · next tens ones tail he =>
      rw [Bool.and_eq_true] at hb
      refine hmark ':' (by decide) (.inl rfl) [tens, ones] tail he ?_
      simpa using hb
    · exact absurd hb (by simp)
  · intro hb
    rw [beginsWithYear.eq_def] at hb
    split at hb
    · next a b c d tail he =>
      simp only [Bool.and_eq_true] at hb
      refine hmark '-' (by decide) (.inr rfl) [a, b, c, d] tail he ?_
      simpa [and_assoc] using hb
    · exact absurd hb (by simp)

theorem notDatetime_of_sign (rest : List Char) :
    (beginsWithHour ('-' :: rest) || beginsWithYear ('-' :: rest)) = false := by
  rw [← Bool.not_eq_true]
  intro h
  obtain ⟨c, tail, hc, hd⟩ := digit_of_begins h
  cases hc
  exact absurd hd (by decide)

theorem readPoint_none {rest : List Char} (h : NumberEnds rest) :
    readPoint rest = some (none, rest) := by
  rw [readPoint.eq_def]
  split
  · exact absurd rfl (h.ne_of_cons '.' (by decide))
  · rfl

theorem readExponent_none {rest : List Char} (h : NumberEnds rest) :
    readExponent rest = some (none, rest) := by
  cases rest with
  | nil => rfl
  | cons c tail =>
    rw [readExponent, if_neg]
    rintro (rfl | rfl)
    · exact absurd rfl (h.ne_of_cons 'e' (by decide))
    · exact absurd rfl (h.ne_of_cons 'E' (by decide))

theorem NumberEnds.digits {rest : List Char} (h : NumberEnds rest) :
    ∀ c ∈ rest.head?, Text.isAsciiDigit c = false ∧ c ≠ '_' := by
  intro c hc
  refine ⟨(h c hc).1, ?_⟩
  rintro rfl
  exact (h _ hc).2 (by decide)

theorem NumberEnds.noBase {rest : List Char} (h : NumberEnds rest) :
    ∀ c ∈ rest.head?, c ∉ ['x', 'o', 'b'] := by
  have hall : ∀ c ∈ ['x', 'o', 'b'], c ∈ ['_', '.', 'e', 'E', 'x', 'o', 'b', ':', '-'] := by simp
  exact fun c hc hm => (h c hc).2 (hall c hm)

/-- **A whole number of signed 64 bits is read back**, in front of what no number goes on with. -/
theorem readNumber_whole {n : Int} (hlow : -0x8000000000000000 ≤ n) (hhigh : n < 0x8000000000000000)
    {rest : List Char} (h : NumberEnds rest) :
    readNumber (scalarText (.whole n) ++ rest) = some (.whole n, rest) := by
  have hsigned : ∀ m : Int, m = n → signed? m = some (.whole n) := by
    rintro m rfl
    rw [signed?, if_pos ⟨hlow, hhigh⟩]
  have hmagnitude : ∀ negative, (if negative then -(n.natAbs : Int) else n.natAbs) = n →
      readMagnitude negative (Text.digits 10 n.natAbs ++ rest) = some (.whole n, rest) := by
    intro negative hn
    rw [readMagnitude, readFront_run (FrontDigits.ofNat _) h.digits]
    simp only [Option.bind_eq_bind, Option.bind_some, readPoint_none h, readExponent_none h,
      (Text.digits_spec _).2]
    rw [hsigned _ hn]
    rfl
  rw [scalarText, List.append_assoc]
  by_cases hneg : n < 0
  · have hread := readNumber_front true (FrontDigits.ofNat n.natAbs) h.noBase
    rw [if_pos rfl] at hread
    rw [if_pos hneg, hread, hmagnitude true (by rw [if_pos rfl]; omega)]
  · have hread := readNumber_front false (FrontDigits.ofNat n.natAbs) h.noBase
    rw [if_neg Bool.false_ne_true] at hread
    rw [if_neg hneg, hread, hmagnitude false (by rw [if_neg Bool.false_ne_true]; omega)]

/-- The number that digits with a point between them denote. -/
def pointed? (negative : Bool) (front back : List Char) : Option Item :=
  match Double.ofDecimal? negative (Text.decimalNumber (front ++ back)) (0 - back.length) with
  | some x => some (.double x)
  | none => if negative then some .notFinite else none

theorem readNumber_pointed (negative : Bool) {front back rest : List Char} (hf : FrontDigits front)
    (hne : back ≠ []) (hb : ∀ c ∈ back, Text.isAsciiDigit c = true) (h : NumberEnds rest) :
    readNumber ((if negative then ['-'] else []) ++ (front ++ '.' :: (back ++ rest))) =
      (pointed? negative front back).map fun item => (item, rest) := by
  have hdot : ∀ c ∈ ('.' :: (back ++ rest)).head?, Text.isAsciiDigit c = false ∧ c ≠ '_' := by
    rintro c ⟨⟩
    decide
  have hbase : ∀ c ∈ ('.' :: (back ++ rest)).head?, c ∉ ['x', 'o', 'b'] := by
    rintro c ⟨⟩
    decide
  rw [readNumber_front negative hf hbase, readMagnitude, readFront_run hf hdot]
  simp only [Option.bind_eq_bind, Option.bind_some, readPoint, readDigits_run hne hb h.digits,
    Option.map_some, readExponent_none h, Option.getD_some, Option.getD_none, pointed?]
  cases Double.ofDecimal? negative (Text.decimalNumber (front ++ back)) (0 - back.length) with
  | some x => rfl
  | none => cases negative <;> rfl

/-- **Every double is read back from its own text**, in front of what no number goes on with. -/
theorem readNumber_double (x : Double) {rest : List Char} (h : NumberEnds rest) :
    readNumber (doubleText x ++ rest) = some (.double x, rest) := by
  obtain ⟨front, back, hp, hf, hne, hb, hread⟩ := x.ofDecimal?_plain_shortest .upward
  have htext : doubleText x ++ rest =
      (if x.negative then ['-'] else []) ++ (front ++ '.' :: (back ++ rest)) := by
    rw [doubleText, hp]
    cases x.negative <;> simp
  rw [htext, readNumber_pointed x.negative hf hne hb h, pointed?, hread]
  rfl

theorem tomlReadsBack (x : Double) : x.TomlReadsBack := by
  have hread := readNumber_double x numberEnds_nil
  rw [List.append_nil] at hread
  exact hread

end Toml

end Sweep
