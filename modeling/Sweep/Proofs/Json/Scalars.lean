import Sweep.Json.Printer
import Sweep.Json.Reader
import Sweep.Proofs.Text.Decimal

/-!
# Scalars of JSON, read back

A string is escaped character by character, and every character is read back from what is written
for it, so a string is read back up to its closing quote whatever comes after.

A number has no end of its own. A number text that is read back by itself is also read back in front
of any text that no number goes on with (`NumberEnds`), because each of its pieces is (`ReadsOn`).
Whole numbers of 64 bits are read back; of a double, reading back is a property of that double,
since numbers with many digits are read by a quick way that can miss the nearest double
(`Double.JsonReadsBack`).
-/

set_option autoImplicit false

namespace Sweep

/-- The shortest decimal text of a double reads back to it. -/
def Double.JsonReadsBack (x : Double) :
    Prop := Json.readNumber (Json.doubleText x) = some (.double x, [])

namespace Json

/-! ## Strings -/

theorem readQuoted_escape {cs after : List Char} {c : Char} (h : readEscape cs = some (c, after)) :
    readQuoted ('\\' :: cs) = (readQuoted after).map fun (text, rest) => (c :: text, rest) := by
  rw [readQuoted]
  split
  · next hn =>
    rw [h] at hn
    exact absurd hn (by simp)
  · next hs =>
    rw [h] at hs
    cases hs
    rfl

theorem readQuoted_raw {cs : List Char} {c : Char} (hquote : c ≠ '"') (hslash : c ≠ '\\')
    (hcontrol : ¬ c.toNat < 0x20) :
    readQuoted (c :: cs) = (readQuoted cs).map fun (text, rest) => (c :: text, rest) := by
  rw [readQuoted, if_neg hcontrol] <;> assumption

theorem readEscape_control {c : Char} (h : c.toNat < 0x20) (rest : List Char) :
    readEscape ('u' :: (Text.hex 4 c.toNat ++ rest)) = some (c, rest) := by
  have hl : (Text.hex 4 c.toNat).length = 4 := Text.length_hex_control (Nat.lt_trans h (by decide))
  have hs : Text.scalar? c.toNat = some c := (Text.scalar?_eq_some_iff c.toNat c).2 rfl
  rw [readEscape, if_pos rfl, Text.readHex_hex hl]
  simp only [hs]
  rw [if_neg (by omega)]
  rfl

/-- What is written for a character is read back as that character. -/
theorem readQuoted_escaped (c : Char) (rest : List Char) :
    readQuoted (escaped c ++ rest) = (readQuoted rest).map fun (text, after) =>
      (c :: text, after) := by
  rw [escaped]
  by_cases hquote : c = '"'
  · rw [if_pos hquote, hquote]
    exact readQuoted_escape rfl
  rw [if_neg hquote]
  by_cases hslash : c = '\\'
  · rw [if_pos hslash, hslash]
    exact readQuoted_escape rfl
  rw [if_neg hslash]
  by_cases hb : c = '\x08'
  · rw [if_pos hb, hb]
    exact readQuoted_escape rfl
  rw [if_neg hb]
  by_cases hf : c = '\x0c'
  · rw [if_pos hf, hf]
    exact readQuoted_escape rfl
  rw [if_neg hf]
  by_cases hn : c = '\n'
  · rw [if_pos hn, hn]
    exact readQuoted_escape rfl
  rw [if_neg hn]
  by_cases hr : c = '\r'
  · rw [if_pos hr, hr]
    exact readQuoted_escape rfl
  rw [if_neg hr]
  by_cases ht : c = '\t'
  · rw [if_pos ht, ht]
    exact readQuoted_escape rfl
  rw [if_neg ht]
  by_cases hcontrol : c.toNat < 0x20
  · rw [if_pos hcontrol]
    exact readQuoted_escape (readEscape_control hcontrol rest)
  · rw [if_neg hcontrol]
    exact readQuoted_raw hquote hslash hcontrol

theorem readQuoted_flatMap_escaped (cs rest : List Char) :
    readQuoted (cs.flatMap escaped ++ '"' :: rest) = some (cs, rest) := by
  induction cs with
  | nil => rw [List.flatMap_nil, List.nil_append, readQuoted]
  | cons c cs ih =>
    rw [List.flatMap_cons, List.append_assoc, readQuoted_escaped, ih]
    rfl

/-- **A string is read back**, whatever comes after it. -/
theorem readString_quoted (s : String) (rest : List Char) :
    readString (quoted s ++ rest) = some (s, rest) := by
  rw [quoted, List.append_assoc, List.cons_append, readString, List.singleton_append,
    readQuoted_flatMap_escaped, Option.map_some]
  simp only [String.ofList_toList]

/-! ## Where a number ends -/

/-- A text that no number in front of it goes on with. -/
def NumberEnds (rest : List Char) : Prop :=
  ∀ c ∈ rest.head?, Text.isAsciiDigit c = false ∧ c ≠ '.' ∧ c ≠ 'e' ∧ c ≠ 'E'

/-- What a reader takes from a text it also takes if the text goes on, unless it goes on with a
number. -/
def ReadsOn {α : Type} (read : List Char → Option (α × List Char)) : Prop :=
  ∀ {cs after rest : List Char} {a : α}, NumberEnds rest → read cs = some (a, after) →
    read (cs ++ rest) = some (a, after ++ rest)

theorem readsOn_readDigits : ReadsOn readDigits := by
  intro cs after rest digits he h
  have hrun := Text.span_append cs fun c hc => (he c hc).1
  rw [readDigits] at h ⊢
  rw [hrun.1, hrun.2]
  cases ht : cs.takeWhile Text.isAsciiDigit with
  | nil =>
    rw [ht] at h
    exact absurd h (by simp)
  | cons first more =>
    rw [ht] at h
    cases h
    rfl

/-- One of the readers below that goes over to another one after a first character. -/
theorem readsOn_map {α β : Type} {read : List Char → Option (α × List Char)} (hr : ReadsOn read)
    (f : α → β) {cs after rest : List Char} {b : β} (he : NumberEnds rest)
    (h : ((read cs).map fun (a, after) => (f a, after)) = some (b, after)) :
    ((read (cs ++ rest)).map fun (a, after) => (f a, after)) = some (b, after ++ rest) := by
  obtain ⟨⟨a, _⟩, ha, hb⟩ := Option.map_eq_some_iff.1 h
  cases hb
  rw [hr he ha]
  rfl

theorem readsOn_readFront : ReadsOn readFront := by
  intro cs after rest digits he h
  rw [readFront.eq_def] at h
  split at h
  · cases h
    rfl
  · next hne =>
    have hr := readsOn_readDigits he h
    rw [readFront.eq_def]
    split
    · next more hc =>
      -- a text that begins with a zero only behind its end has no digits of its own
      cases cs with
      | nil => exact absurd h (by simp [readDigits])
      | cons c tail =>
        cases hc
        exact absurd rfl (hne tail)
    · exact hr

theorem readsOn_readFraction : ReadsOn readFraction := by
  intro cs after rest digits he h
  cases cs with
  | nil =>
    cases h
    rw [List.nil_append, readFraction.eq_def]
    split
    · exact absurd rfl (he '.' rfl).2.1
    · rfl
  | cons c tail =>
    rw [readFraction.eq_def] at h
    split at h
    · next hc =>
      cases hc
      exact readsOn_map readsOn_readDigits some he h
    · next hne =>
      cases h
      rw [List.cons_append, readFraction.eq_def]
      split
      · next hc =>
        cases hc
        exact absurd rfl (hne tail)
      · rfl

theorem readsOn_readSignedDigits : ReadsOn readSignedDigits := by
  intro cs after rest n he h
  cases cs with
  | nil => exact absurd h (by simp [readSignedDigits, readDigits])
  | cons c tail =>
    rw [readSignedDigits.eq_def] at h
    split at h
    · next hc =>
      cases hc
      exact readsOn_map readsOn_readDigits (fun digits => -(Text.decimalNumber digits : Int)) he h
    · next hc =>
      cases hc
      exact readsOn_map readsOn_readDigits (fun digits => (Text.decimalNumber digits : Int)) he h
    · next hminus hplus =>
      rw [List.cons_append, readSignedDigits.eq_def]
      split
      · next hc =>
        cases hc
        exact absurd rfl (hminus tail)
      · next hc =>
        cases hc
        exact absurd rfl (hplus tail)
      · exact readsOn_map readsOn_readDigits (fun digits => (Text.decimalNumber digits : Int)) he h

theorem readsOn_readExponent : ReadsOn readExponent := by
  intro cs after rest n he h
  cases cs with
  | nil =>
    cases h
    rw [List.nil_append, readExponent.eq_def]
    split
    · exact absurd rfl (he 'e' rfl).2.2.1
    · exact absurd rfl (he 'E' rfl).2.2.2
    · rfl
  | cons c tail =>
    rw [readExponent.eq_def] at h
    split at h
    · next hc =>
      cases hc
      exact readsOn_map readsOn_readSignedDigits some he h
    · next hc =>
      cases hc
      exact readsOn_map readsOn_readSignedDigits some he h
    · next hlower hupper =>
      cases h
      rw [List.cons_append, readExponent.eq_def]
      split
      · next hc =>
        cases hc
        exact absurd rfl (hlower tail)
      · next hc =>
        cases hc
        exact absurd rfl (hupper tail)
      · rfl

/-- The number that the pieces of a number text denote. -/
def magnitude? (negative : Bool) (front : List Char) (fraction : Option (List Char))
    (exponent : Option Int) :
    Option Value :=
  match fraction, exponent with
  | none, none => wholeOrDouble negative (gather 0 front).1 (gather 0 front).2
  | _, _ =>
    let digits := fraction.getD []
    let gathered := gather (gather 0 front).1 digits
    (Double.ofScaled? negative gathered.1
      ((gather 0 front).2 - ((digits.length : Int) - gathered.2) + exponent.getD 0)).map .double

theorem readMagnitude_eq_some_iff (negative : Bool) (cs after : List Char) (v : Value) :
    readMagnitude negative cs = some (v, after) ↔
      ∃ front cs₁ fraction cs₂ exponent,
        readFront cs = some (front, cs₁) ∧ readFraction cs₁ = some (fraction, cs₂) ∧
        readExponent cs₂ = some (exponent, after) ∧
        magnitude? negative front fraction exponent = some v := by
  have hbind : readMagnitude negative cs =
      (readFront cs).bind fun front => (readFraction front.2).bind fun fraction =>
        (readExponent fraction.2).bind fun exponent =>
          (magnitude? negative front.1 fraction.1 exponent.1).bind fun value =>
            some (value, exponent.2) := by
    rw [readMagnitude]
    simp only [Option.bind_eq_bind]
    refine Option.bind_congr fun front _ =>
      Option.bind_congr fun fraction _ => Option.bind_congr fun exponent _ => ?_
    obtain ⟨_ | _, _⟩ := fraction <;> obtain ⟨_ | _, _⟩ := exponent <;> rfl
  rw [hbind]
  simp only [Option.bind_eq_some_iff, Option.some.injEq, Prod.exists, Prod.mk.injEq]
  constructor
  · rintro ⟨front, cs₁, hfront, fraction, cs₂, hfraction, exponent, cs₃, hexponent, value,
      hvalue, rfl, rfl⟩
    exact ⟨front, cs₁, fraction, cs₂, exponent, hfront, hfraction, hexponent, hvalue⟩
  · rintro ⟨front, cs₁, fraction, cs₂, exponent, hfront, hfraction, hexponent, hvalue⟩
    exact ⟨front, cs₁, hfront, fraction, cs₂, hfraction, exponent, after, hexponent, v,
      hvalue, rfl, rfl⟩

theorem readsOn_readMagnitude (negative : Bool) : ReadsOn (readMagnitude negative) := by
  intro cs after rest v he h
  obtain ⟨front, cs₁, fraction, cs₂, exponent, hfront, hfraction, hexponent, hvalue⟩ :=
    (readMagnitude_eq_some_iff negative cs after v).1 h
  exact (readMagnitude_eq_some_iff negative (cs ++ rest) (after ++ rest) v).2
    ⟨front, _, fraction, _, exponent, readsOn_readFront he hfront,
      readsOn_readFraction he hfraction, readsOn_readExponent he hexponent, hvalue⟩

theorem readMagnitude_nil (negative : Bool) : readMagnitude negative [] = none := rfl

/-- **A number that is read back by itself is read back in front of what no number goes on
with.** -/
theorem readsOn_readNumber : ReadsOn readNumber := by
  intro cs after rest v he h
  cases cs with
  | nil => exact absurd h (by simp [readNumber, readMagnitude_nil])
  | cons c tail =>
    rw [readNumber.eq_def] at h
    split at h
    · next hc =>
      cases hc
      exact readsOn_readMagnitude true he h
    · next hne =>
      rw [List.cons_append, readNumber.eq_def]
      split
      · next hc =>
        cases hc
        exact absurd rfl (hne tail)
      · exact readsOn_readMagnitude false he h

/-! ## Whole numbers -/

/-- Digits are gathered as one number, as long as 64 bits hold it. -/
theorem gather_of_lt {coefficient : Nat} {digits : List Char}
    (h : coefficient * 10 ^ digits.length + Text.decimalNumber digits < 0x10000000000000000) :
    gather coefficient digits =
      (coefficient * 10 ^ digits.length + Text.decimalNumber digits, 0) := by
  induction digits generalizing coefficient with
  | nil => simp [gather, Text.decimalNumber]
  | cons c rest ih =>
    have hcons : coefficient * 10 ^ (c :: rest).length + Text.decimalNumber (c :: rest) =
        (coefficient * 10 + (Text.decimalValue? c).getD 0) * 10 ^ rest.length +
          Text.decimalNumber rest := by
      have hd := Text.decimalNumber_append [c] rest
      rw [List.singleton_append] at hd
      rw [hd, List.length_cons, Text.decimalNumber, List.foldl_cons, List.foldl_nil]
      ring
    rw [hcons] at h ⊢
    have hlt : coefficient * 10 + (Text.decimalValue? c).getD 0 < 0x10000000000000000 :=
      Nat.lt_of_le_of_lt (Nat.le_trans (Nat.le_mul_of_pos_right _ (Nat.pow_pos (by decide)))
        (Nat.le_add_right _ _)) h
    rw [gather]
    simp only [if_pos hlt]
    exact ih h

theorem readFront_digits (n : Nat) :
    readFront (Text.digits 10 n) = some (Text.digits 10 n, []) := by
  by_cases hn : n = 0
  · rw [hn, Text.digits_zero]
    rfl
  · obtain ⟨c, rest, hd, hc⟩ := Text.head_digits (show 1 < 10 by decide) hn
    have hall := (Text.digits_spec n).1
    rw [hd] at hall ⊢
    rw [readFront, readDigits, List.takeWhile_eq_self_iff.2 hall, List.dropWhile_eq_nil_iff.2 hall]
    intro tail he
    exact hc (List.cons.inj he).1

theorem readMagnitude_digits (negative : Bool) {n : Nat} (hn : n < 0x10000000000000000) :
    readMagnitude negative (Text.digits 10 n) =
      (wholeOrDouble negative n 0).map fun v => (v, []) := by
  have hg : gather 0 (Text.digits 10 n) = (n, 0) := by
    have hd := (Text.digits_spec n).2
    have h := @gather_of_lt 0 (Text.digits 10 n)
    rw [Nat.zero_mul, Nat.zero_add, hd] at h
    exact h hn
  rw [readMagnitude, readFront_digits]
  simp only [Option.bind_eq_bind, Option.bind_some, readFraction, readExponent, hg]
  cases wholeOrDouble negative n 0 <;> rfl

/-- **A whole number of 64 bits is read back.** -/
theorem readNumber_whole (n : Whole) : readNumber n.text.toList = some (.whole n, []) := by
  obtain ⟨value, hlower, hupper⟩ := n
  have habs : value.natAbs < 0x10000000000000000 := by omega
  have hof : ∀ m : Int, m = value → Whole.ofInt? m = some ⟨value, hlower, hupper⟩ := by
    rintro m rfl
    rw [Whole.ofInt?, dif_pos ⟨hlower, hupper⟩]
  rw [Whole.text]
  by_cases hneg : value < 0
  · have hl : ("-" ++ String.ofList (Nat.toDigits 10 value.natAbs)).toList =
        '-' :: Text.digits 10 value.natAbs := by
      simp only [String.toList_append, String.toList_ofList]
      rfl
    have hzero : value.natAbs ≠ 0 := by omega
    simp only [if_pos hneg, hl, readNumber, readMagnitude_digits true habs, wholeOrDouble, hzero,
      and_false, not_false_eq_true, and_self, if_true]
    rw [hof _ (by omega)]
    rfl
  · have hfront : readNumber (Text.digits 10 value.natAbs) =
        readMagnitude false (Text.digits 10 value.natAbs) := by
      rw [readNumber.eq_def]
      split
      · next tail hd =>
        have hminus := (Text.digits_spec value.natAbs).1 '-' (hd ▸ List.mem_cons_self)
        exact absurd hminus (by decide)
      · rfl
    rw [if_neg hneg, String.toList_ofList]
    show readNumber (Text.digits 10 value.natAbs) = _
    rw [hfront, readMagnitude_digits false habs, wholeOrDouble, if_pos ⟨rfl, by simp⟩]
    simp only [Bool.false_eq_true, if_false]
    rw [hof _ (by omega)]
    rfl

end Json

end Sweep
