import Sweep.Proofs.Conversion.Filling
import Sweep.Proofs.Conversion.Integers

/-!
# Whole numbers with the mark of their base

Three verbs can show their base by a mark of a zero and a letter, which a reader takes as the
beginning of a number in that base: sign, mark, digits (`Marked`). Zeros that a precision asks for
stand behind the mark. Zeros that fill up the width stand in front of it, and so the number cannot
be read any more: `00000xff` instead of `0x0000ff`. That is the only case (`apply_marked`).
-/

set_option autoImplicit false

namespace Sweep

namespace Verb

/-- The mark of the three verbs is a zero and a letter. -/
theorem exists_mark {verb : Verb} (h : verb ∈ [Verb.b, .x, .upperX]) :
    ∃ letter, Directive.baseMark verb = ['0', letter] ∧ letter ≠ '0' := by
  simp only [List.mem_cons, List.not_mem_nil, or_false] at h
  rcases h with rfl | rfl | rfl
  · exact ⟨'b', rfl, by decide⟩
  · exact ⟨'x', rfl, by decide⟩
  · exact ⟨'X', rfl, by decide⟩

end Verb

namespace Directive

/-- A number with the mark of its base: spaces, sign, mark, digits and spaces, and nothing between
them. All zeros that a precision asks for are among the digits. -/
def Marked (d : Directive) (n : Int) (cs : List Char) : Prop :=
  ∃ (front : Nat) (sign : List Char) (digits : List Nat) (back : Nat), SignText d n sign ∧
    Text.Denotes d.verb.base n.natAbs digits ∧ d.precision.getD 0 ≤ digits.length ∧
    cs = List.replicate front ' ' ++
    (sign ++ (baseMark d.verb ++ (digits.map d.verb.digit ++ List.replicate back ' ')))

/-- Zeros are to fill up a width that sign, mark and digits leave open. -/
def FillsMark (d : Directive) (n : Int) : Prop :=
  d.zero = true ∧ d.minus = false ∧ d.precision = none ∧
    (d.sign (decide (n < 0))).length +
      ((baseMark d.verb).length + (Text.digits d.verb.base n.natAbs).length) < d.width.getD 0

theorem isSign_of_signText {d : Directive} {n : Int} {sign : List Char} (h : SignText d n sign) :
    ∀ c ∈ sign, isSign c = true := by
  cases h <;> simp [isSign]

/-- The mark is found behind spaces and sign, so zeros in front of it are no marked number. -/
theorem not_marked_of_zeros {d : Directive} (hverb : d.verb ∈ [Verb.b, .x, .upperX]) {n : Int}
    {sign : List Char} (hsign : SignText d n sign) (zeros : Nat) (digits : List Char) :
    ¬ d.Marked n (sign ++ (List.replicate (zeros + 1) '0' ++ (baseMark d.verb ++ digits))) := by
  rintro ⟨front, sign', values, back, hsign', -, -, htext⟩
  obtain ⟨letter, hmark, hletter⟩ := Verb.exists_mark hverb
  have hspaces : ∀ c ∈ List.replicate front ' ', isSign c = true := by
    intro c hc
    rw [List.eq_of_mem_replicate hc]
    rfl
  have hbehind := congrArg (List.dropWhile isSign) htext
  rw [List.dropWhile_append_of_pos (isSign_of_signText hsign), List.dropWhile_append_of_pos hspaces,
    List.dropWhile_append_of_pos (isSign_of_signText hsign'), hmark] at hbehind
  have hsecond := congrArg (fun cs : List Char => cs[1]?) hbehind
  cases zeros <;> exact hletter (Option.some.inj hsecond).symm

theorem length_baseDigits (verb : Verb) (magnitude : Nat) :
    (baseDigits verb magnitude).length = (Text.digits verb.base magnitude).length := by
  cases verb
  case upperX => exact List.length_map _
  all_goals rfl

/-- The mark stands in front of all the digits that a precision asks for. -/
theorem markedDigits_eq {d : Directive} (hverb : d.verb ∈ [Verb.b, .x, .upperX])
    (hsharp : d.sharp = true) (magnitude : Nat) :
    d.markedDigits magnitude = baseMark d.verb ++ d.preciseDigits magnitude := by
  have hoctal : (d.verb == .o) = false := by
    rw [beq_eq_false_iff_ne]
    rintro h
    rw [h] at hverb
    exact absurd hverb (by decide)
  rw [markedDigits, hsharp, hoctal]
  rfl

/-- **A marked number can be read unless zeros fill up the width.** -/
theorem marked_fill_iff {d : Directive} (hverb : d.verb ∈ [Verb.b, .x, .upperX])
    (hsharp : d.sharp = true) (n : Int) :
    d.Marked n (d.fill (d.spellInteger n)) ↔ ¬ d.FillsMark n := by
  constructor
  · rintro hmarked ⟨hzero, hminus, hprecision, hwidth⟩
    have hprecise : d.preciseDigits n.natAbs = baseDigits d.verb n.natAbs := by
      rw [preciseDigits, hprecision]
    obtain ⟨zeros, hzeros⟩ : ∃ zeros, d.width.getD 0 -
        ((d.sign (decide (n < 0))).length +
          (baseMark d.verb ++ baseDigits d.verb n.natAbs).length) = zeros + 1 := by
      refine Nat.exists_eq_add_one_of_ne_zero ?_
      rw [List.length_append, length_baseDigits]
      omega
    rw [spellInteger, markedDigits_eq hverb hsharp, hprecise, hprecision, Option.isNone_none,
      fill_zeros hzero hminus, hzeros] at hmarked
    exact not_marked_of_zeros hverb (d.signText_sign n) zeros _ hmarked
  · intro hopen
    obtain ⟨values, hd, hvalues, hprecision, -⟩ := d.preciseDigits_spec n.natAbs
    obtain ⟨front, zeros, back, hfill, hwidth, hzeros, -⟩ :=
      d.fill_number (decide (n < 0)) (baseMark d.verb ++ d.preciseDigits n.natAbs)
        d.precision.isNone
    have hnone : zeros = 0 := by
      by_contra hne
      obtain ⟨hzero, hisNone, hminus, rfl, rfl⟩ := hzeros hne
      have hp : d.precision = none := Option.isNone_iff_eq_none.1 hisNone
      have hprecise : d.preciseDigits n.natAbs = baseDigits d.verb n.natAbs := by
        rw [preciseDigits, hp]
      rw [hprecise, List.length_append, length_baseDigits] at hwidth
      exact hopen ⟨hzero, hminus, hp, by omega⟩
    refine ⟨front, d.sign (decide (n < 0)), values, back, d.signText_sign n, hvalues,
      hprecision, ?_⟩
    rw [spellInteger, markedDigits_eq hverb hsharp, hfill, hnone, hd]
    simp only [List.replicate_zero, List.nil_append, List.append_assoc]

end Directive

/-- **Base marks are kept readable**, whatever flags, width and precision there are, except where
zeros are to fill up a width: those come in front of the mark. -/
theorem Conversion.apply_marked {c : Conversion} (hverb : c.directive.verb ∈ [Verb.b, .x, .upperX])
    (hsharp : c.directive.sharp = true) {v : Value} {n : Int} (hv : v.IsInteger n) :
    ∃ body, c.apply v = .ok (c.before.toList ++ body ++ c.after.toList) ∧
      (c.directive.Marked n body ↔ ¬ c.directive.FillsMark n) := by
  have hwhole : c.directive.verb ∈ [Verb.d, .i, .b, .o, .x, .upperX] := by
    revert hverb
    cases c.directive.verb <;> decide
  refine ⟨_, ?_, Directive.marked_fill_iff hverb hsharp n⟩
  rw [Conversion.apply, Directive.spell_of_isInteger hwhole hv]

/-- Six digits at least, behind a mark and a sign. -/
def Conversion.sixMarked :
    Conversion := ⟨"", ⟨false, true, false, true, true, some 12, some 6, .upperX⟩, ""⟩

/-- Zeros up to the precision stand behind the mark, and a precision rules out zeros up to the
width. -/
theorem Conversion.apply_marked_minus255 :
    (sixMarked.directive.verb ∈ [Verb.b, .x, .upperX] ∧ sixMarked.directive.sharp = true ∧
        (Value.double .minus255).IsInteger (-255)) ∧
      ∃ body, sixMarked.apply (.double .minus255) = .ok ("".toList ++ body ++ "".toList) ∧
        sixMarked.directive.Marked (-255) body := by
  have hverb : sixMarked.directive.verb ∈ [Verb.b, .x, .upperX] := by decide
  have hvalue : (Value.double .minus255).IsInteger (-255) :=
    .double Double.minus255_equals (by decide)
  obtain ⟨body, happly, hmarked⟩ := apply_marked hverb rfl hvalue
  refine ⟨⟨hverb, rfl, hvalue⟩, body, happly, hmarked.2 ?_⟩
  rintro ⟨-, -, hprecision, -⟩
  cases hprecision

example :
    Conversion.sixMarked.apply (.double .minus255) = .ok "   -0X0000FF".toList := by decide +kernel

/-- A mark, and zeros up to eight characters. -/
def Conversion.eightMarked :
    Conversion := ⟨"", ⟨false, false, false, true, true, some 8, none, .x⟩, ""⟩

/-- Zeros up to the width are no marked number. -/
theorem Conversion.zeros_before_mark :
    eightMarked.apply (.whole ⟨255, by decide, by decide⟩) = .ok "00000xff".toList ∧
      ¬ eightMarked.directive.Marked 255 "00000xff".toList := by
  refine ⟨by decide +kernel, ?_⟩
  exact Directive.not_marked_of_zeros (by decide) (.absent (by decide) rfl rfl) 3 ['f', 'f']

end Sweep
