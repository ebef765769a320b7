import Sweep.Proofs.Conversion.Filling
import Sweep.Proofs.Conversion.Integers
import Sweep.Proofs.Number.GeneralForm

/-!
# A width only pads

A conversion with a width is compared with the same conversion without one. Both take the same
values and refuse the others for the same reason; what the width adds is filling, and `Widens` says
which: spaces behind with a minus flag, spaces in front otherwise, or zeros behind the sign for a
number with a zero flag (`apply_width`).

For the zeros one has to know where the sign ends. It does where the digits begin, and no number
begins its digits with a character that could be a sign (`Unsigned`), in whichever form it is
printed.
-/

set_option autoImplicit false

namespace Sweep

/-! ## Digits do not look like a sign -/

/-- The text does not begin with a sign. -/
def Unsigned (cs : List Char) : Prop := ∀ c ∈ cs.head?, Directive.isSign c = false

theorem unsigned_of_digit {c : Char} (rest : List Char) (h : Text.isAsciiDigit c = true) :
    Unsigned (c :: rest) := by
  rintro _ ⟨⟩
  simp only [Directive.isSign, Bool.or_eq_false_iff, beq_eq_false_iff_ne]
  exact ⟨⟨Text.ne_of_digit h rfl, Text.ne_of_digit h rfl⟩, Text.ne_of_digit h rfl⟩

/-- Neither does it in upper case. -/
theorem unsigned_toUpper_of_digit {c : Char} (rest : List Char) (h : Text.isAsciiDigit c = true) :
    Unsigned ((c :: rest).map Char.toUpper) := by
  have hc : c.toUpper = c := by
    obtain ⟨-, hhigh⟩ := (Text.isAsciiDigit_iff c).1 h
    refine dif_neg ?_
    rintro ⟨hlow, -⟩
    have hlow' : 97 ≤ c.toNat := hlow
    omega
  rw [List.map_cons, hc]
  exact unsigned_of_digit _ h

/-- A number with a fixed number of places: digits, more of them than places, and a point between
them if there are places. -/
theorem exists_fixedText (places units : Nat) :
    ∃ digits : List Char, (∀ c ∈ digits, Text.isAsciiDigit c = true) ∧ places < digits.length ∧
      fixedText places units =
        if places = 0 then digits
        else digits.take (digits.length - places) ++ '.' ::
          digits.drop (digits.length - places) := by
  refine ⟨List.replicate (places + 1 - (Text.digits 10 units).length) '0' ++ Text.digits 10 units,
    fun c hc => ?_, ?_, rfl⟩
  · rcases List.mem_append.1 hc with hc | hc
    · exact digits_zeros _ c hc
    · exact (Text.digits_spec units).1 c hc
  · rw [List.length_append, List.length_replicate]
    omega

/-- It begins with a digit. -/
theorem exists_cons_fixedText (places units : Nat) :
    ∃ c rest, fixedText places units = c :: rest ∧ Text.isAsciiDigit c = true := by
  obtain ⟨digits, hall, hlength, hfixed⟩ := exists_fixedText places units
  obtain ⟨c, rest, rfl⟩ := List.exists_cons_of_length_pos (Nat.zero_lt_of_lt hlength)
  rw [hfixed]
  by_cases hp : places = 0
  · exact ⟨c, rest, if_pos hp, hall c List.mem_cons_self⟩
  · obtain ⟨front, hfront⟩ : ∃ front, (c :: rest).length - places = front + 1 :=
      ⟨(c :: rest).length - places - 1, by omega⟩
    rw [if_neg hp, hfront, List.take_succ_cons]
    exact ⟨c, _, rfl, hall c List.mem_cons_self⟩

namespace Directive

theorem unsigned_baseDigits (verb : Verb) (magnitude : Nat) :
    Unsigned (baseDigits verb magnitude) := by
  have hdigit : ∀ value < 16, isSign (verb.digit value) = false := by cases verb <;> decide
  obtain ⟨values, hd, hvalues, -⟩ := baseDigits_spec verb magnitude
  rw [hd]
  cases values with
  | nil => rintro c ⟨⟩
  | cons value rest =>
    rintro _ ⟨⟩
    exact hdigit value (Nat.lt_of_lt_of_le (hvalues.range value List.mem_cons_self) verb.base_le)

theorem unsigned_mark_append (verb : Verb) {cs : List Char} (h : Unsigned cs) :
    Unsigned (baseMark verb ++ cs) := by
  cases verb with
  | b | o | x | upperX => exact unsigned_of_digit _ rfl
  | _ => exact h

/-- A whole number without a precision. -/
theorem unsigned_markedDigits {d : Directive} (h : d.precision = none) (magnitude : Nat) :
    Unsigned (d.markedDigits magnitude) := by
  have hdigits := unsigned_baseDigits d.verb magnitude
  rw [markedDigits, preciseDigits, h]
  simp only
  split
  · exact unsigned_mark_append d.verb hdigits
  · exact hdigits

theorem unsigned_doubleDigits {d : Directive}
    (hverb : d.verb ∈ [Verb.e, .upperE, .f, .upperF, .g, .upperG]) (x : Double) :
    Unsigned (d.doubleDigits x) := by
  have hexponent : ∃ c rest, d.exponentDigits x = c :: rest ∧ Text.isAsciiDigit c = true := by
    have hnormal := (x.significant_spec (show 0 < d.precision.getD 6 + 1 by omega)).1
    rw [exponentDigits, Scientific.withExponent_eq _ false]
    exact (Scientific.wellFormed_powerNumeral hnormal false).head_magnitudeText
  have hgeneral : ∃ c rest, x.generalMagnitude d.precision d.sharp = c :: rest ∧
      Text.isAsciiDigit c = true := by
    rw [x.generalMagnitude_eq]
    exact (x.wellFormed_generalNumeral d.precision d.sharp).head_magnitudeText
  obtain ⟨c, rest, he, hc⟩ := hexponent
  obtain ⟨c', rest', hg, hc'⟩ := hgeneral
  obtain ⟨c'', rest'', hf, hc''⟩ :=
    exists_cons_fixedText (d.precision.getD 6) (x.rounded (d.precision.getD 6))
  simp only [List.mem_cons, List.not_mem_nil, or_false] at hverb
  rw [doubleDigits.eq_def]
  rcases hverb with h | h | h | h | h | h <;> simp only [h]
  · rw [he]
    exact unsigned_of_digit _ hc
  · rw [he]
    exact unsigned_toUpper_of_digit _ hc
  · rw [hf]
    exact unsigned_of_digit _ hc''
  · rw [hf]
    exact unsigned_of_digit _ hc''
  · rw [hg]
    exact unsigned_of_digit _ hc'
  · rw [hg]
    exact unsigned_toUpper_of_digit _ hc'

/-! ## Texts and numbers -/

/-- The verbs that print numbers print a number: whole ones without a precision, doubles with or
without. -/
def Numeric (d : Directive) (v : Value) : Prop :=
  (v.kind = .whole ∨ v.kind = .double) ∧
    (d.verb ∈ [Verb.d, .i, .b, .o, .x, .upperX] ∧ d.precision = none ∨
      d.verb ∈ [Verb.e, .upperE, .f, .upperF, .g, .upperG])

theorem kind_of_integer? {v : Value} {n : Int} (h : v.integer? = some n) :
    v.kind = .whole ∨ v.kind = .double := by
  cases v with
  | whole _ => exact .inl rfl
  | double _ => exact .inr rfl
  | _ => cases h

theorem kind_of_double? {v : Value} {x : Double} (h : v.double? = some x) :
    v.kind = .whole ∨ v.kind = .double := by
  cases v with
  | whole _ => exact .inl rfl
  | double _ => exact .inr rfl
  | _ => cases h

/-- The verbs that spell texts. -/
theorem exists_text_of_spell {d : Directive} (hverb : d.verb ∈ [Verb.s, .v, .t, .q, .c]) {v : Value}
    {spelling : Spelling} (h : d.spell v = .ok spelling) : ∃ chars, spelling = .text chars := by
  simp only [List.mem_cons, List.not_mem_nil, or_false] at hverb
  rw [spell.eq_def] at h
  rcases hverb with hv | hv | hv | hv | hv <;> rw [hv] at h <;> simp only at h
  · cases h
    exact ⟨_, rfl⟩
  · cases h
    exact ⟨_, rfl⟩
  · split at h <;> cases h <;> exact ⟨_, rfl⟩
  · split at h <;> cases h
    exact ⟨_, rfl⟩
  · split at h
    · split at h <;> cases h
      exact ⟨_, rfl⟩
    · cases h

/-- The verbs that spell whole numbers; two of them spell a text as well. -/
theorem integer_or_text_of_spell {d : Directive}
    (hverb : d.verb ∈ [Verb.d, .i, .b, .o, .x, .upperX]) {v : Value} {spelling : Spelling}
    (h : d.spell v = .ok spelling) :
    (∃ n, v.integer? = some n ∧ spelling = d.spellInteger n) ∨
      (v.kind = .text ∧ ∃ chars, spelling = .text chars) := by
  -- what the six verbs come to once it is no text under one of the last two
  have hnumber : ∀ {result : Except Mismatch Spelling},
      (∀ n, v.integer? = some n → result = .ok (d.spellInteger n)) →
      (v.integer? = none → result = .error (d.mismatch v)) → result = .ok spelling →
      ∃ n, v.integer? = some n ∧ spelling = d.spellInteger n := by
    intro result hsome hnone hr
    cases hn : v.integer? with
    | none =>
      rw [hnone hn] at hr
      cases hr
    | some n =>
      rw [hsome n hn] at hr
      cases hr
      exact ⟨n, rfl, rfl⟩
  simp only [List.mem_cons, List.not_mem_nil, or_false] at hverb
  rw [spell.eq_def] at h
  rcases hverb with hv | hv | hv | hv | hv | hv <;> rw [hv] at h <;> simp only at h
  · exact .inl (hnumber (fun n hn => by rw [hn]) (fun hn => by rw [hn]) h)
  · exact .inl (hnumber (fun n hn => by rw [hn]) (fun hn => by rw [hn]) h)
  · exact .inl (hnumber (fun n hn => by rw [hn]) (fun hn => by rw [hn]) h)
  · exact .inl (hnumber (fun n hn => by rw [hn]) (fun hn => by rw [hn]) h)
  · split at h
    · cases h
      exact .inr ⟨rfl, _, rfl⟩
    · exact .inl (hnumber (fun n hn => by rw [hn]) (fun hn => by rw [hn]) h)
  · split at h
    · cases h
      exact .inr ⟨rfl, _, rfl⟩
    · exact .inl (hnumber (fun n hn => by rw [hn]) (fun hn => by rw [hn]) h)

/-- The verbs that spell doubles. -/
theorem double_of_spell {d : Directive}
    (hverb : d.verb ∈ [Verb.e, .upperE, .f, .upperF, .g, .upperG]) {v : Value} {spelling : Spelling}
    (h : d.spell v = .ok spelling) : ∃ x, v.double? = some x ∧ spelling = d.spellDouble x := by
  simp only [List.mem_cons, List.not_mem_nil, or_false] at hverb
  rw [spell.eq_def] at h
  cases hx : v.double? with
  | none =>
    rcases hverb with hv | hv | hv | hv | hv | hv <;> rw [hv, hx] at h <;> cases h
  | some x =>
    refine ⟨x, rfl, ?_⟩
    rcases hverb with hv | hv | hv | hv | hv | hv <;> rw [hv, hx] at h <;>
      exact (Except.ok.inj h).symm

/-- What a directive spells is a number that zeros can fill up, behind its sign; or else only spaces
fill it up. -/
inductive Spelled (d : Directive) (v : Value) : Spelling → Prop where
  | number {negative : Bool} {digits : List Char} : d.Numeric v → Unsigned digits →
      Spelled d v (.number negative digits true)
  | precise {negative : Bool} {digits : List Char} : ¬ d.Numeric v →
      Spelled d v (.number negative digits false)
  | text {chars : List Char} : ¬ d.Numeric v → Spelled d v (.text chars)

theorem spelled_of_spell {d : Directive} {v : Value} {spelling : Spelling}
    (h : d.spell v = .ok spelling) :
    d.Spelled v spelling := by
  have hverbs : d.verb ∈ [Verb.s, .v, .t, .q, .c] ∨ d.verb ∈ [Verb.d, .i, .b, .o, .x, .upperX] ∨
      d.verb ∈ [Verb.e, .upperE, .f, .upperF, .g, .upperG] := by cases d.verb <;> decide
  rcases hverbs with hverb | hverb | hverb
  · obtain ⟨chars, rfl⟩ := exists_text_of_spell hverb h
    have hapart : d.verb ∉ [Verb.d, .i, .b, .o, .x, .upperX] ∧
        d.verb ∉ [Verb.e, .upperE, .f, .upperF, .g, .upperG] := by
      revert hverb
      cases d.verb <;> decide
    exact .text fun hnumeric => hnumeric.2.elim (fun hinteger => hapart.1 hinteger.1) hapart.2
  · rcases integer_or_text_of_spell hverb h with ⟨n, hn, rfl⟩ | ⟨hkind, chars, rfl⟩
    · rw [spellInteger]
      cases hp : d.precision with
      | none => exact .number ⟨kind_of_integer? hn, .inl ⟨hverb, hp⟩⟩ (unsigned_markedDigits hp _)
      | some p =>
        have hapart : d.verb ∉ [Verb.e, .upperE, .f, .upperF, .g, .upperG] := by
          revert hverb
          cases d.verb <;> decide
        refine .precise ?_
        rintro ⟨-, ⟨-, hnone⟩ | hdouble⟩
        · rw [hp] at hnone
          cases hnone
        · exact hapart hdouble
    · refine .text ?_
      rintro ⟨hnumber, -⟩
      rw [hkind] at hnumber
      rcases hnumber with hnumber | hnumber <;> cases hnumber
  · obtain ⟨x, hx, rfl⟩ := double_of_spell hverb h
    exact .number ⟨kind_of_double? hx, .inr hverb⟩ (unsigned_doubleDigits hverb x)

/-! ## With a width and without -/

/-- Zeros behind the sign, if there is one. -/
def zerosBehindSign (count : Nat) : List Char → List Char
  | [] => List.replicate count '0'
  | c :: rest =>
    if isSign c then c :: (List.replicate count '0' ++ rest)
    else List.replicate count '0' ++ c :: rest

theorem zerosBehindSign_sign (d : Directive) (negative : Bool) {digits : List Char}
    (h : Unsigned digits) (count : Nat) :
    zerosBehindSign count (d.sign negative ++ digits) =
      d.sign negative ++ (List.replicate count '0' ++ digits) := by
  rcases d.sign_cases negative with hs | ⟨c, hs, hc⟩
  · rw [hs, List.nil_append, List.nil_append]
    cases digits with
    | nil => exact (List.append_nil _).symm
    | cons c rest => rw [zerosBehindSign, if_neg (by rw [h c rfl]; exact Bool.false_ne_true)]
  · rw [hs, List.singleton_append, zerosBehindSign, if_pos hc, List.singleton_append]

example : zerosBehindSign 3 ['+', '1', '.', '5'] = ['+', '0', '0', '0', '1', '.', '5'] := rfl

/-- What a width makes of the text that the same directive gives without one. Nothing is said of the
place of zeros where the mark of a base stands between sign and digits. -/
structure Widens (d : Directive) (v : Value) (plain wide : List Char) : Prop where
  length : wide.length = max (d.width.getD 0) plain.length
  left : d.minus = true → wide = plain ++ List.replicate (d.width.getD 0 - plain.length) ' '
  right : d.minus = false → ¬ (d.zero = true ∧ d.Numeric v) →
    wide = List.replicate (d.width.getD 0 - plain.length) ' ' ++ plain
  zeros : d.minus = false → d.zero = true → d.Numeric v →
    ¬ (d.sharp = true ∧ d.verb ∈ [Verb.b, .x, .upperX]) →
    wide = zerosBehindSign (d.width.getD 0 - plain.length) plain

/-- Spaces fill up whatever is no number, and any text with a minus flag. -/
theorem widens_fillSpaces {d : Directive} {v : Value}
    (h : ¬ (d.minus = false ∧ d.zero = true ∧ d.Numeric v)) (plain : List Char) :
    d.Widens v plain (d.fillSpaces plain) where
  length := d.length_fillSpaces plain
  left hminus := fillSpaces_left hminus plain
  right hminus _ := fillSpaces_right hminus plain
  zeros hminus hzero hnumeric _ := absurd ⟨hminus, hzero, hnumeric⟩ h

/-- **Filling a spelling to the width only pads it.** -/
theorem widens_fill {d : Directive} {v : Value} {spelling : Spelling} (h : d.Spelled v spelling) :
    d.Widens v (d.withoutWidth.fill spelling) (d.fill spelling) := by
  cases h with
  | @number negative digits hnumeric hunsigned =>
    rw [fill_number_withoutWidth]
    by_cases hzeros : d.minus = false ∧ d.zero = true
    · obtain ⟨hminus, hzero⟩ := hzeros
      rw [fill_zeros hzero hminus]
      refine ⟨?_, fun hm => ?_, fun _ hno => absurd ⟨hzero, hnumeric⟩ hno, fun _ _ _ _ => ?_⟩
      · simp only [List.length_append, List.length_replicate]
        omega
      · rw [hminus] at hm
        cases hm
      · rw [zerosBehindSign_sign d negative hunsigned, List.length_append]
    · rw [fill_spaces fun hall => hzeros ⟨hall.2.2, hall.1⟩]
      exact widens_fillSpaces (fun hall => hzeros ⟨hall.1, hall.2.1⟩) _
  | @precise negative digits hnumeric =>
    rw [fill_number_withoutWidth, fill_spaces fun hall => Bool.false_ne_true hall.2.1]
    exact widens_fillSpaces (fun hall => hnumeric hall.2.2) _
  | @text chars hnumeric =>
    rw [fill_text_withoutWidth]
    exact widens_fillSpaces (fun hall => hnumeric hall.2.2) chars

end Directive

/-- The same conversion without a width. -/
def Conversion.withoutWidth (c : Conversion) :
    Conversion := { c with directive := c.directive.withoutWidth }

/-- **A width only pads**: with it and without it a conversion refuses the same values for the same
reason, and where it takes one, the width changes nothing but the filling of the text between the
same literal text. -/
theorem Conversion.apply_width (c : Conversion) (v : Value) :
    (∃ why, c.withoutWidth.apply v = .error why ∧ c.apply v = .error why) ∨
      ∃ plain wide, c.withoutWidth.apply v = .ok (c.before.toList ++ plain ++ c.after.toList) ∧
        c.apply v = .ok (c.before.toList ++ wide ++ c.after.toList) ∧
        c.directive.Widens v plain wide := by
  have hspell : c.withoutWidth.directive.spell v = c.directive.spell v :=
    c.directive.spell_withoutWidth v
  cases h : c.directive.spell v with
  | error why =>
    left
    refine ⟨why, ?_, ?_⟩
    · rw [apply, hspell, h]
    · rw [apply, h]
  | ok spelling =>
    right
    refine ⟨c.directive.withoutWidth.fill spelling, c.directive.fill spelling, ?_, ?_,
      Directive.widens_fill (Directive.spelled_of_spell h)⟩
    · rw [apply, hspell, h]
      rfl
    · rw [apply, h]

end Sweep
