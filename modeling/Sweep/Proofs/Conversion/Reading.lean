import Sweep.Proofs.Conversion.Grammar
import Sweep.Proofs.Text.Decimal

/-!
# Reading a conversion agrees with the grammar

A text is read as a conversion exactly if the grammar has it for that conversion
(`read_iff_grammar`). The reader goes once from left to right, and each of its steps takes from the
front of a text what the grammar has there: literal text up to a percent sign that is not doubled,
flags, a width, a precision and the letter of a verb. A step is greedy, so the grammar has to know
that what comes next cannot go on with it; here that is so because a verb is neither a flag nor a
digit nor a point nor a percent sign (`letter_apart`). The digits of a number are capped one by one,
which comes to capping the number (`foldl_addDigit`).
-/

set_option autoImplicit false

namespace Sweep

namespace Verb

/-- No letter of a verb can be taken for something in front of it. -/
theorem letter_apart (verb : Verb) :
    verb.letter ∉ Conversion.flagChars ∧ Text.isAsciiDigit verb.letter = false ∧ verb.letter ≠ '.' ∧
      verb.letter ≠ '%' := by
  cases verb <;> decide

theorem ofLetter?_eq_some_iff (c : Char) (verb : Verb) :
    ofLetter? c = some verb ↔ verb.letter = c := by
  constructor
  · intro h
    have hl := List.find?_some h
    simpa using hl
  · rintro rfl
    cases verb <;> rfl

end Verb

namespace Conversion

/-! ## Literal text -/

theorem readLiteral_percent (cs : List Char) :
    readLiteral ('%' :: '%' :: cs) = ('%' :: (readLiteral cs).1, (readLiteral cs).2) := rfl

theorem readLiteral_plain {c : Char} (h : c ≠ '%') (cs : List Char) :
    readLiteral (c :: cs) = (c :: (readLiteral cs).1, (readLiteral cs).2) := by
  rw [readLiteral]
  · rw [if_neg h]
  · intro rest hc
    exact absurd hc h

theorem readLiteral_stop {cs : List Char} (h : ∀ c ∈ cs.head?, c ≠ '%') :
    readLiteral ('%' :: cs) = ([], some cs) := by
  rw [readLiteral]
  · rw [if_pos rfl]
  · rintro rest - rfl
    exact h '%' rfl rfl

/-- **Literal text is read up to the first percent sign that is not doubled.** -/
theorem readLiteral_of_literalText {source text rest : List Char} (h : LiteralText source text)
    (hr : ∀ c ∈ rest.head?, c ≠ '%') : readLiteral (source ++ '%' :: rest) = (text, some rest) := by
  induction h with
  | nil => exact readLiteral_stop hr
  | plain hc _ ih => rw [List.cons_append, readLiteral_plain hc, ih]
  | percent _ ih => rw [List.cons_append, List.cons_append, readLiteral_percent, ih]

/-- It is read to the end if every percent sign is doubled. -/
theorem readLiteral_of_literalText_end {cs text : List Char} (h : LiteralText cs text) :
    readLiteral cs = (text, none) := by
  induction h with
  | nil => rfl
  | plain hc _ ih => rw [readLiteral_plain hc, ih]
  | percent _ ih => rw [readLiteral_percent, ih]

/-- What is read as literal text is literal text, and it ends nowhere else. -/
theorem literalText_readLiteral (cs : List Char) :
    (∀ text, readLiteral cs = (text, none) → LiteralText cs text) ∧
      ∀ text rest, readLiteral cs = (text, some rest) →
        ∃ source, cs = source ++ '%' :: rest ∧ LiteralText source text := by
  -- the reader goes past two characters at a time where a percent sign is doubled
  fun_induction readLiteral cs with
  | case1 =>
    constructor
    · intro text h
      cases h
      exact .nil
    · intro text rest h
      cases h
  | case2 tail more after hread ih =>
    obtain ⟨hend, hstop⟩ := ih
    constructor
    · intro text h
      cases h
      exact .percent (hend more hread)
    · intro text rest h
      cases h
      obtain ⟨source, rfl, hs⟩ := hstop more rest hread
      exact ⟨'%' :: '%' :: source, rfl, .percent hs⟩
  | case3 tail hne =>
    constructor
    · intro text h
      cases h
    · intro text rest h
      cases h
      exact ⟨[], rfl, .nil⟩
  | case4 c tail _ hc more after hread ih =>
    obtain ⟨hend, hstop⟩ := ih
    constructor
    · intro text h
      cases h
      exact .plain hc (hend more hread)
    · intro text rest h
      cases h
      obtain ⟨source, rfl, hs⟩ := hstop more rest hread
      exact ⟨c :: source, rfl, .plain hc hs⟩

/-! ## Numbers -/

/-- What the cap takes from a number is not missed once another digit comes. -/
theorem addDigit_min (n : Nat) (c : Char) :
    addDigit (min n limit) c = min (n * 10 + (Text.decimalValue? c).getD 0) limit := by
  unfold addDigit limit
  omega

/-- **Capping after every digit is capping once.** -/
theorem foldl_addDigit (cs : List Char) : cs.foldl addDigit 0 = cappedNumber cs := by
  have hfrom : ∀ (cs : List Char) (n : Nat), cs.foldl addDigit (min n limit) =
      min (cs.foldl (fun n c => n * 10 + (Text.decimalValue? c).getD 0) n) limit := by
    intro cs
    induction cs with
    | nil => intro n; rfl
    | cons c rest ih =>
      intro n
      rw [List.foldl_cons, List.foldl_cons, addDigit_min, ih]
  exact hfrom cs 0

theorem readNumber_digits {digits rest : List Char} (hd : Digits digits) (hne : digits ≠ [])
    (hr : ∀ c ∈ rest.head?, Text.isAsciiDigit c = false) :
    readNumber (digits ++ rest) = (some (cappedNumber digits), rest) := by
  obtain ⟨htake, hdrop⟩ := Key.span_run hd hr
  unfold readNumber
  rw [htake, hdrop]
  split
  · exact absurd rfl hne
  · rw [foldl_addDigit]

theorem readNumber_none {cs : List Char} (h : ∀ c ∈ cs.head?, Text.isAsciiDigit c = false) :
    readNumber cs = (none, cs) := by
  cases cs with
  | nil => rfl
  | cons c rest =>
    have hc : Text.isAsciiDigit c = false := h c rfl
    simp [readNumber, hc]

theorem readNumber_of_widthText {source : List Char} {width : Option Nat}
    (h : WidthText source width) {rest : List Char}
    (hr : ∀ c ∈ rest.head?, Text.isAsciiDigit c = false) :
    readNumber (source ++ rest) = (width, rest) := by
  cases h with
  | absent => exact readNumber_none hr
  | digits hne hd => exact readNumber_digits hd hne hr

/-- What is read as a number are the digits in front. -/
theorem exists_readNumber (cs : List Char) :
    ∃ digits rest, cs = digits ++ rest ∧ Digits digits ∧
      readNumber cs = (if digits = [] then none else some (cappedNumber digits), rest) := by
  have hcut : cs.takeWhile Text.isAsciiDigit ++ cs.dropWhile Text.isAsciiDigit = cs :=
    List.takeWhile_append_dropWhile
  have hd : Digits (cs.takeWhile Text.isAsciiDigit) := fun c hc => List.mem_takeWhile_imp hc
  have hr := Text.head_dropWhile Text.isAsciiDigit cs
  refine ⟨_, _, hcut.symm, hd, ?_⟩
  split
  · next he =>
    rw [he, List.nil_append] at hcut
    rw [hcut] at hr ⊢
    exact readNumber_none hr
  · next hne =>
    have hread := readNumber_digits hd hne hr
    rwa [hcut] at hread

theorem widthText_readNumber {cs rest : List Char} {width : Option Nat}
    (h : readNumber cs = (width, rest)) :
    ∃ source, cs = source ++ rest ∧ WidthText source width := by
  obtain ⟨digits, after, hcs, hd, hread⟩ := exists_readNumber cs
  rw [h, Prod.mk.injEq] at hread
  obtain ⟨rfl, rfl⟩ := hread
  refine ⟨digits, hcs, ?_⟩
  split
  · next he =>
    rw [he]
    exact .absent
  · next hne => exact .digits hne hd

/-! ## Precisions -/

theorem readPrecision_of_precisionText {source : List Char} {precision : Option Nat}
    (h : PrecisionText source precision) {rest : List Char}
    (hr : ∀ c ∈ rest.head?, Text.isAsciiDigit c = false ∧ c ≠ '.') :
    readPrecision (source ++ rest) = (precision, rest) := by
  have hdigit : ∀ c ∈ rest.head?, Text.isAsciiDigit c = false := fun c hc => (hr c hc).1
  cases h with
  | absent =>
    rw [List.nil_append]
    unfold readPrecision
    split
    · next tail => exact absurd rfl (hr '.' rfl).2
    · rfl
  | @point digits hd =>
    rw [List.cons_append, readPrecision]
    by_cases hne : digits = []
    · -- a bare point
      rw [hne, List.nil_append, readNumber_none hdigit]
      rfl
    · rw [readNumber_digits hd hne hdigit]
      rfl

theorem precisionText_readPrecision {cs rest : List Char} {precision : Option Nat}
    (h : readPrecision cs = (precision, rest)) :
    ∃ source, cs = source ++ rest ∧ PrecisionText source precision := by
  unfold readPrecision at h
  split at h
  · next tail =>
    obtain ⟨digits, after, htail, hd, hread⟩ := exists_readNumber tail
    simp only [hread, Prod.mk.injEq] at h
    obtain ⟨rfl, rfl⟩ := h
    refine ⟨'.' :: digits, by rw [htail, List.cons_append], ?_⟩
    have hvalue : (if digits = [] then none else some (cappedNumber digits)).getD 0 =
        cappedNumber digits := by
      split
      · next he =>
        rw [he]
        rfl
      · rfl
    rw [hvalue]
    exact .point hd
  · cases h
    exact ⟨[], rfl, .absent⟩

/-! ## Directives -/

theorem isFlag_iff (c : Char) : isFlag c = true ↔ c ∈ flagChars := by
  simp [isFlag, flagChars, or_assoc]

theorem not_isFlag_iff (c : Char) : isFlag c = false ↔ c ∉ flagChars := by
  rw [← isFlag_iff, Bool.not_eq_true]

theorem head_of_precisionText {source rest : List Char} {precision : Option Nat}
    (h : PrecisionText source precision) :
    ∀ c ∈ (source ++ rest).head?, c = '.' ∨ c ∈ rest.head? := by
  intro c hc
  cases h with
  | absent => exact .inr hc
  | point _ =>
    cases hc
    exact .inl rfl

/-- What comes after a directive does not change where its flags end. -/
theorem head_of_verb (width precision : List Char) (letter : Char) (rest : List Char) :
    (width ++ (precision ++ letter :: rest)).head? = (width ++ (precision ++ [letter])).head? := by
  cases width with
  | nil => cases precision <;> rfl
  | cons c width => rfl

/-- **A directive of the grammar is what the reader takes.** -/
theorem readDirective_of_directiveText {source : List Char} {d : Directive}
    (h : DirectiveText source d) (rest : List Char) :
    readDirective (source ++ rest) = .ok (d, rest) := by
  obtain ⟨flags, width, precision, rfl, hflags, hmaximal, hminus, hplus, hspace, hzero, hsharp,
    hwidth, hprecision⟩ := h
  obtain ⟨-, hdigit, hpoint, -⟩ := d.verb.letter_apart
  have hrun : ∀ c ∈ flags, isFlag c = true := fun c hc => (isFlag_iff c).2 (hflags c hc)
  have hstop : ∀ c ∈ (width ++ (precision ++ d.verb.letter :: rest)).head?, isFlag c = false := by
    intro c hc
    rw [head_of_verb] at hc
    exact (not_isFlag_iff c).2 (hmaximal c hc)
  obtain ⟨htake, hdrop⟩ := Key.span_run hrun hstop
  have hreadWidth : readNumber (width ++ (precision ++ d.verb.letter :: rest)) =
      (d.width, precision ++ d.verb.letter :: rest) := by
    apply readNumber_of_widthText hwidth
    intro c hc
    rcases head_of_precisionText hprecision c hc with rfl | hc
    · decide
    · cases hc
      exact hdigit
  have hreadPrecision : readPrecision (precision ++ d.verb.letter :: rest) =
      (d.precision, d.verb.letter :: rest) := by
    apply readPrecision_of_precisionText hprecision
    intro c hc
    cases hc
    exact ⟨hdigit, hpoint⟩
  have hverb : Verb.ofLetter? d.verb.letter = some d.verb := (Verb.ofLetter?_eq_some_iff _ _).2 rfl
  have hcs : flags ++ (width ++ (precision ++ [d.verb.letter])) ++ rest =
      flags ++ (width ++ (precision ++ d.verb.letter :: rest)) := by
    simp
  have hset : ∀ (flag : Char) (set : Bool), (set = true ↔ flag ∈ flags) →
      flags.contains flag = set := by
    intro flag set h
    rw [Bool.eq_iff_iff, h, List.contains_iff_mem]
  rw [hcs]
  unfold readDirective
  simp only [htake, hdrop, hreadWidth, hreadPrecision, hverb, hset _ _ hminus, hset _ _ hplus,
    hset _ _ hspace, hset _ _ hzero, hset _ _ hsharp]

/-- What the reader takes is a directive of the grammar. -/
theorem directiveText_readDirective {cs rest : List Char} {d : Directive}
    (h : readDirective cs = .ok (d, rest)) :
    ∃ source, cs = source ++ rest ∧ DirectiveText source d := by
  unfold readDirective at h
  cases hwidth : readNumber (cs.dropWhile isFlag) with
  | mk width afterWidth =>
    cases hprecision : readPrecision afterWidth with
    | mk precision afterPrecision =>
      simp only [hwidth, hprecision] at h
      cases afterPrecision with
      | nil => cases h
      | cons letter after =>
        cases hverb : Verb.ofLetter? letter with
        | none =>
          simp only [hverb] at h
          cases h
        | some verb =>
          simp only [hverb] at h
          cases h
          obtain ⟨widthSource, hwidthSource, hwidthText⟩ := widthText_readNumber hwidth
          obtain ⟨precisionSource, rfl, hprecisionText⟩ := precisionText_readPrecision hprecision
          obtain rfl := (Verb.ofLetter?_eq_some_iff _ _).1 hverb
          have hcut : cs.takeWhile isFlag ++ cs.dropWhile isFlag = cs :=
            List.takeWhile_append_dropWhile
          have hstop := Text.head_dropWhile isFlag cs
          rw [hwidthSource] at hcut hstop
          refine ⟨cs.takeWhile isFlag ++ (widthSource ++ (precisionSource ++ [verb.letter])), ?_,
            _, widthSource, precisionSource, rfl, ?_, ?_, ?_, ?_, ?_, ?_, ?_, hwidthText,
            hprecisionText⟩
          · calc
              cs = cs.takeWhile isFlag ++
                  (widthSource ++ (precisionSource ++ verb.letter :: rest)) := hcut.symm
              _ = cs.takeWhile isFlag ++
                  (widthSource ++ (precisionSource ++ [verb.letter])) ++ rest := by simp
          · intro c hc
            exact (isFlag_iff c).1 (List.mem_takeWhile_imp hc)
          · intro c hc
            rw [← head_of_verb _ _ _ rest] at hc
            exact (not_isFlag_iff c).1 (hstop c hc)
          all_goals exact List.contains_iff_mem

theorem digits_of_widthText {source : List Char} {width : Option Nat} (h : WidthText source width) :
    Digits source := by
  cases h with
  | absent => simp [Digits]
  | digits _ hd => exact hd

theorem mem_of_precisionText {source : List Char} {precision : Option Nat}
    (h : PrecisionText source precision) :
    ∀ c ∈ source, c = '.' ∨ Text.isAsciiDigit c = true := by
  cases h with
  | absent => simp
  | point hd => exact List.forall_mem_cons.2 ⟨.inl rfl, fun c hc => .inr (hd c hc)⟩

theorem ne_percent_of_digit {c : Char} (h : Text.isAsciiDigit c = true) : c ≠ '%' :=
  Text.ne_of_digit h (by decide)

/-- There is no percent sign in a directive, so the one in front of it is not doubled. -/
theorem ne_percent_of_directiveText {source : List Char} {d : Directive}
    (h : DirectiveText source d) :
    ∀ c ∈ source, c ≠ '%' := by
  obtain ⟨flags, width, precision, rfl, hflags, -, -, -, -, -, -, hwidth, hprecision⟩ := h
  have hflag : ∀ c ∈ flagChars, c ≠ '%' := by simp [flagChars]
  intro c hc
  simp only [List.mem_append, List.mem_singleton] at hc
  rcases hc with hc | hc | hc | rfl
  · exact hflag c (hflags c hc)
  · exact ne_percent_of_digit (digits_of_widthText hwidth c hc)
  · rcases mem_of_precisionText hprecision c hc with rfl | hd
    · decide
    · exact ne_percent_of_digit hd
  · exact d.verb.letter_apart.2.2.2

theorem ne_nil_of_directiveText {source : List Char} {d : Directive} (h : DirectiveText source d) :
    source ≠ [] := by
  obtain ⟨flags, width, precision, rfl, -⟩ := h
  simp

/-! ## Conversions -/

/-- The steps of reading: literal text, the directive behind the percent sign, and literal text to
the end. -/
theorem read_eq_ok_iff_steps (text : String) (c : Conversion) :
    read text = .ok c ↔
      ∃ before rest directive more after, readLiteral text.toList = (before, some rest) ∧
        readDirective rest = .ok (directive, more) ∧ readLiteral more = (after, none) ∧
        c = ⟨String.ofList before, directive, String.ofList after⟩ := by
  rw [read]
  constructor
  · intro h
    split at h
    · cases h
    · next before rest hbefore =>
      split at h
      · cases h
      · next directive more hdirective =>
        split at h
        · cases h
        · next after hafter =>
          cases h
          exact ⟨before, rest, directive, more, after, hbefore, hdirective, hafter, rfl⟩
  · rintro ⟨before, rest, directive, more, after, hbefore, hdirective, hafter, rfl⟩
    simp only [hbefore, hdirective, hafter]

theorem read_eq_ok_iff (text : String) (c : Conversion) :
    read text = .ok c ↔ ConversionText text.toList c := by
  rw [read_eq_ok_iff_steps]
  constructor
  · rintro ⟨before, rest, directive, more, after, hbefore, hdirective, hafter, rfl⟩
    obtain ⟨front, htext, hfront⟩ := (literalText_readLiteral _).2 _ _ hbefore
    obtain ⟨source, rfl, hsource⟩ := directiveText_readDirective hdirective
    refine ⟨front, source, more, htext, ?_, hsource, ?_⟩
    · rwa [String.toList_ofList]
    · rw [String.toList_ofList]
      exact (literalText_readLiteral _).1 _ hafter
  · rintro ⟨front, source, back, htext, hfront, hsource, hback⟩
    have hbefore : readLiteral text.toList = (c.before.toList, some (source ++ back)) := by
      rw [htext]
      apply readLiteral_of_literalText hfront
      intro c hc
      rw [List.head?_append_of_ne_nil _ (ne_nil_of_directiveText hsource)] at hc
      exact ne_percent_of_directiveText hsource c (List.mem_of_mem_head? hc)
    refine ⟨_, _, c.directive, back, _, hbefore, readDirective_of_directiveText hsource back,
      readLiteral_of_literalText_end hback, ?_⟩
    rw [String.ofList_toList, String.ofList_toList]

/-- **A text is a conversion exactly if the grammar has it**, for the conversion that the grammar
has it for; any other text is a fault. -/
theorem read_iff_grammar (text : String) :
    (∀ c, read text = .ok c ↔ ConversionText text.toList c) ∧
      ((∃ c, ConversionText text.toList c) ∨ ∃ why, read text = .error why) := by
  refine ⟨read_eq_ok_iff text, ?_⟩
  cases h : read text with
  | ok c => exact .inl ⟨c, (read_eq_ok_iff text c).1 h⟩
  | error why => exact .inr ⟨why, rfl⟩

/-- The first zero is a flag, the other one a digit of the width. -/
example : read "%%%00.x%%" =
    .ok ⟨"%", ⟨false, false, false, true, false, none, some 0, .x⟩, "%"⟩ := by decide +kernel

end Conversion

end Sweep
