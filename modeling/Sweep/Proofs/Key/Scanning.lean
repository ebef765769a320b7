import Mathlib.Data.List.TakeWhile
import Mathlib.Tactic.IntervalCases
import Sweep.Proofs.Except
import Sweep.Proofs.Key.Grammar
import Sweep.Proofs.Text.Classes

/-!
# The scanner and the grammar

Piece by piece, what the scanner takes from the front of a text is what the grammar has there.
Escapes and quoted text end by themselves, so each of them is settled both ways at once. Bare
segments are greedy: for them the grammar has to know that the text after a segment cannot go on
with it (`Ends`), which is so for white space and separators.
-/

set_option autoImplicit false

namespace Sweep

namespace Text

/-! ## Hexadecimal digits -/

theorem of_between {low high : Char} {P : Char → Prop}
    (hp : ∀ n, n ≤ high.toNat → low.toNat ≤ n → P (Char.ofNat n)) {c : Char}
    (h : low ≤ c ∧ c ≤ high) : P c := by
  rw [← Char.ofNat_toNat c]
  exact hp c.toNat h.2 h.1

theorem hexValue?_eq_some_iff (c : Char) (value : Nat) :
    hexValue? c = some value ↔ Key.HexDigit c value := by
  constructor
  · intro h
    rw [hexValue?] at h
    split at h
    · rename_i hr
      cases h
      exact of_between (P := fun c => Key.HexDigit c (c.toNat - '0'.toNat)) (by decide) hr
    · split at h
      · rename_i hr
        cases h
        exact of_between (P := fun c => Key.HexDigit c (c.toNat - 'a'.toNat + 10)) (by decide) hr
      · split at h
        · rename_i hr
          cases h
          exact of_between (P := fun c => Key.HexDigit c (c.toNat - 'A'.toNat + 10)) (by decide) hr
        · exact absurd h (by simp)
  · rintro (h | h)
    all_goals
      have hv : value < 16 := (List.getElem?_eq_some_iff.1 h).1
      interval_cases value <;> (cases h; rfl)

theorem scalar?_eq_some_iff (n : Nat) (c : Char) : scalar? n = some c ↔ n = c.toNat := by
  rw [scalar?]
  constructor
  · intro h
    split at h
    · rename_i hv
      cases h
      rw [Char.ofNat, dif_pos hv]
      rfl
    · exact absurd h (by simp)
  · rintro rfl
    rw [if_pos (show c.toNat.isValidChar from c.valid), Char.ofNat_toNat]

theorem readHex_eq_some_iff (count value n : Nat) (cs rest : List Char) :
    readHex count value cs = some (n, rest) ↔
      ∃ digits values, cs = digits ++ rest ∧ digits.length = count ∧
        List.Forall₂ Key.HexDigit digits values ∧
        values.foldl (fun n value => n * 16 + value) value = n := by
  induction count generalizing value cs with
  | zero =>
    rw [readHex, Option.some.injEq, Prod.mk.injEq]
    constructor
    · rintro ⟨rfl, rfl⟩
      exact ⟨[], [], rfl, rfl, .nil, rfl⟩
    · rintro ⟨digits, values, rfl, hl, hd, rfl⟩
      obtain rfl := List.eq_nil_of_length_eq_zero hl
      cases hd
      exact ⟨rfl, rfl⟩
  | succ count ih =>
    cases cs with
    | nil =>
      rw [readHex]
      constructor
      · intro h
        exact absurd h (by simp)
      · rintro ⟨digits, values, hc, hl, -, -⟩
        rw [(List.append_eq_nil_iff.1 hc.symm).1] at hl
        exact absurd hl (by simp)
    | cons c cs =>
      rw [readHex]
      constructor
      · intro h
        cases hd : hexValue? c with
        | none =>
          rw [hd] at h
          exact absurd h (by simp)
        | some first =>
          rw [hd] at h
          obtain ⟨digits, values, rfl, rfl, hds, hn⟩ := (ih _ _).1 h
          exact ⟨c :: digits, first :: values, rfl, rfl,
            .cons ((hexValue?_eq_some_iff c first).1 hd) hds, hn⟩
      · rintro ⟨digits, values, hc, hl, hds, hn⟩
        cases hds with
        | nil => exact absurd hl (by simp)
        | @cons digit first digits values hd hds =>
          obtain ⟨rfl, rfl⟩ := List.cons.inj hc
          rw [(hexValue?_eq_some_iff c first).2 hd]
          exact (ih _ _).2 ⟨digits, values, rfl, Nat.succ.inj hl, hds, hn⟩

theorem readHexChar_eq_some_iff (count : Nat) (cs rest : List Char) (c : Char) :
    readHexChar count cs = some (c, rest) ↔
      ∃ digits, cs = digits ++ rest ∧ digits.length = count ∧ Key.Names digits c := by
  rw [readHexChar]
  constructor
  · intro h
    cases hr : readHex count 0 cs with
    | none =>
      rw [hr] at h
      exact absurd h (by simp)
    | some read =>
      obtain ⟨n, after⟩ := read
      rw [hr] at h
      obtain ⟨x, hx, he⟩ := Option.map_eq_some_iff.1 h
      cases he
      obtain ⟨digits, values, hc, hl, hd, hn⟩ := (readHex_eq_some_iff count 0 n cs rest).1 hr
      exact ⟨digits, hc, hl, values, hd, hn.trans ((scalar?_eq_some_iff n c).1 hx)⟩
  · rintro ⟨digits, hc, hl, values, hd, hn⟩
    rw [(readHex_eq_some_iff count 0 c.toNat cs rest).2 ⟨digits, values, hc, hl, hd, hn⟩]
    simp only [(scalar?_eq_some_iff c.toNat c).2 rfl, Option.map_some]

end Text

namespace Key

/-! ## Escapes -/

theorem letterEscape?_eq_some_iff (l c : Char) :
    letterEscape? l = some c ↔ (l, c) ∈ escapeLetters := by
  constructor
  · intro h
    rw [letterEscape?] at h
    repeat' split at h
    · rename_i hl
      rcases hl with rfl | rfl | rfl <;> (cases h; decide)
    all_goals cases h <;> subst_vars <;> decide
  · intro h
    have hall : ∀ entry ∈ escapeLetters, letterEscape? entry.1 = some entry.2 := by decide
    exact hall (l, c) h

/-- **The escapes of the scanner are those of the grammar.** -/
theorem readEscape_eq_some_iff (cs rest : List Char) (c : Char) :
    readEscape cs = some (c, rest) ↔ ∃ source, cs = source ++ rest ∧ Escape source c := by
  constructor
  · intro h
    cases cs with
    | nil => exact absurd h (by simp [readEscape])
    | cons l tail =>
      rw [readEscape] at h
      split at h
      · rename_i hu
        obtain ⟨digits, rfl, hl, hn⟩ := (Text.readHexChar_eq_some_iff 4 tail rest c).1 h
        exact ⟨l :: digits, rfl, hu ▸ .short hl hn⟩
      · split at h
        · rename_i hu
          obtain ⟨digits, rfl, hl, hn⟩ := (Text.readHexChar_eq_some_iff 8 tail rest c).1 h
          exact ⟨l :: digits, rfl, hu ▸ .long hl hn⟩
        · obtain ⟨x, hx, he⟩ := Option.map_eq_some_iff.1 h
          cases he
          exact ⟨[l], rfl, .letter ((letterEscape?_eq_some_iff l c).1 hx)⟩
  · rintro ⟨source, rfl, he⟩
    cases he with
    | @letter l _ hm =>
      -- no one-letter escape is taken for a numbered one
      have hl : l ≠ 'u' ∧ l ≠ 'U' := by
        have hall : ∀ entry ∈ escapeLetters, entry.1 ≠ 'u' ∧ entry.1 ≠ 'U' := by decide
        exact hall (l, c) hm
      rw [List.singleton_append, readEscape, if_neg hl.1, if_neg hl.2,
        (letterEscape?_eq_some_iff l c).2 hm, Option.map_some]
    | @short digits _ hl hn =>
      rw [List.cons_append, readEscape, if_pos rfl]
      exact (Text.readHexChar_eq_some_iff 4 _ rest c).2 ⟨digits, rfl, hl, hn⟩
    | @long digits _ hl hn =>
      rw [List.cons_append, readEscape, if_neg (by decide), if_pos rfl]
      exact (Text.readHexChar_eq_some_iff 8 _ rest c).2 ⟨digits, rfl, hl, hn⟩

/-! ## Quoted text -/

theorem readQuoted_escape {cs after : List Char} {c : Char} (h : readEscape cs = some (c, after)) :
    readQuoted ('\\' :: cs) = (readQuoted after).map fun (text, rest) => (c :: text, rest) := by
  rw [readQuoted]
  split
  · rename_i hn
    rw [h] at hn
    exact absurd hn (by simp)
  · rename_i hs
    rw [h] at hs
    cases hs
    rfl

theorem readQuoted_raw {cs : List Char} {c : Char} (hquote : c ≠ '"') (hslash : c ≠ '\\')
    (hnewline : c ≠ '\n') :
    readQuoted (c :: cs) = (readQuoted cs).map fun (text, rest) => (c :: text, rest) := by
  rw [readQuoted] <;> assumption

/-- **The scanner reads quoted text up to the quote that closes it.** -/
theorem readQuoted_eq_ok_iff (cs text rest : List Char) :
    readQuoted cs = .ok (text, rest) ↔
      ∃ source, cs = source ++ '"' :: rest ∧ QuotedText source text := by
  constructor
  · -- the recursion goes past escapes, so the induction follows the calls and not the text
    intro h
    fun_induction readQuoted cs generalizing text rest with
    | case1 => exact absurd h (by simp)
    | case2 tail => exact absurd h (by simp)
    | case3 tail =>
      cases h
      exact ⟨[], rfl, .nil⟩
    | case4 tail => exact absurd h (by simp)
    | case5 tail c after hescape _ ih =>
      obtain ⟨⟨more, _⟩, hm, he⟩ := Except.map_eq_ok_iff.1 h
      cases he
      obtain ⟨source, rfl, hq⟩ := ih _ _ hm
      obtain ⟨escape, rfl, hc⟩ := (readEscape_eq_some_iff tail _ c).1 hescape
      refine ⟨'\\' :: escape ++ source, ?_, .escape hc hq⟩
      rw [List.append_assoc, List.cons_append]
    | case6 c tail hnewline hquote hslash ih =>
      obtain ⟨⟨more, _⟩, hm, he⟩ := Except.map_eq_ok_iff.1 h
      cases he
      obtain ⟨source, rfl, hq⟩ := ih _ _ hm
      exact ⟨c :: source, rfl, .raw hquote hslash hnewline hq⟩
  · rintro ⟨source, rfl, hq⟩
    induction hq with
    | nil => rw [List.nil_append, readQuoted]
    | raw hquote hslash hnewline _ ih =>
      rw [List.cons_append, readQuoted_raw hquote hslash hnewline, ih]
      rfl
    | @escape escape c source text hc _ ih =>
      have he : readEscape (escape ++ (source ++ '"' :: rest)) = some (c, source ++ '"' :: rest) :=
        (readEscape_eq_some_iff _ _ c).2 ⟨escape, rfl, hc⟩
      rw [List.append_assoc, List.cons_append, readQuoted_escape he, ih]
      rfl

theorem readQuotedSegment_eq_ok_iff (cs rest : List Char) (token : Token) :
    readQuotedSegment cs = .ok (token, rest) ↔
      ∃ source text, cs = source ++ '"' :: rest ∧ QuotedText source text ∧ text ≠ [] ∧
        token = .segment (String.ofList text) := by
  rw [readQuotedSegment]
  constructor
  · intro h
    split at h
    · exact absurd h (by simp)
    · exact absurd h (by simp)
    · rename_i text after hne hr
      cases h
      obtain ⟨source, hc, hq⟩ := (readQuoted_eq_ok_iff cs text rest).1 hr
      exact ⟨source, text, hc, hq, hne, rfl⟩
  · rintro ⟨source, text, hc, hq, hne, rfl⟩
    rw [(readQuoted_eq_ok_iff cs text rest).2 ⟨source, hc, hq⟩]
    cases text with
    | nil => exact absurd rfl hne
    | cons c tail => rfl

/-! ## Tokens -/

/-- The text of a token. -/
inductive TokenText : List Char → Token → Prop where
  | dot : TokenText ['.'] .dot
  | comma : TokenText [','] .comma
  | segment {source : List Char} {segment : String} : SegmentText source segment →
      TokenText source (.segment segment)

/-- A text that no bare segment before it can go on with. -/
def Ends (cs : List Char) : Prop := ∀ c ∈ cs.head?, isIdentifierPart c = false

theorem Blank.ends_append {blank cs : List Char} (hb : Blank blank) (h : Ends cs) :
    Ends (blank ++ cs) := by
  cases blank with
  | nil => exact h
  | cons c rest =>
    intro head hh
    cases hh
    exact not_part_of_blank (hb c List.mem_cons_self)

theorem span_run {p : Char → Bool} {run after : List Char} (hr : ∀ c ∈ run, p c = true)
    (ha : ∀ c ∈ after.head?, p c = false) :
    (run ++ after).takeWhile p = run ∧ (run ++ after).dropWhile p = after := by
  rw [List.takeWhile_append_of_pos hr, List.dropWhile_append_of_pos hr]
  cases after with
  | nil => exact ⟨List.append_nil run, rfl⟩
  | cons c rest =>
    have hc : ¬ p c = true := by
      rw [ha c rfl]
      exact Bool.false_ne_true
    rw [List.takeWhile_cons_of_neg hc, List.dropWhile_cons_of_neg hc]
    exact ⟨List.append_nil run, rfl⟩

/-- What the scanner takes is a token of the grammar. -/
theorem tokenText_of_readToken {c : Char} {rest after : List Char} {token : Token}
    (h : readToken c rest = .ok (token, after)) :
    ∃ source, c :: rest = source ++ after ∧ TokenText source token := by
  rw [readToken] at h
  split at h
  · rename_i hc
    cases h
    exact ⟨['.'], by rw [hc]; rfl, .dot⟩
  split at h
  · rename_i hc
    cases h
    exact ⟨[','], by rw [hc]; rfl, .comma⟩
  split at h
  · rename_i hc
    obtain ⟨source, text, rfl, hq, hne, rfl⟩ := (readQuotedSegment_eq_ok_iff rest after token).1 h
    exact ⟨'"' :: source ++ ['"'], by rw [hc]; simp, .segment (.quoted hq hne)⟩
  split at h
  · rename_i hd
    cases h
    refine ⟨c :: rest.takeWhile Text.isAsciiDigit, ?_, .segment (.digits (List.cons_ne_nil _ _) ?_)⟩
    · rw [List.cons_append, List.takeWhile_append_dropWhile]
    · exact List.forall_mem_cons.2 ⟨hd, fun x hx => List.mem_takeWhile_imp hx⟩
  split at h
  · rename_i hs
    cases h
    refine ⟨c :: rest.takeWhile isIdentifierPart, ?_,
      .segment (.identifier hs fun x hx => List.mem_takeWhile_imp hx)⟩
    rw [List.cons_append, List.takeWhile_append_dropWhile]
  · exact absurd h (by simp)

/-- **A segment of the grammar is what the scanner takes**, if nothing after it goes on with it. -/
theorem readToken_of_segmentText {source after : List Char} {segment : String}
    (h : SegmentText source segment) (ha : Ends after) :
    ∃ c rest, source = c :: rest ∧ Text.isBlank c = false ∧
      readToken c (rest ++ after) = .ok (.segment segment, after) := by
  cases h with
  | digits hne hd =>
    cases source with
    | nil => exact absurd rfl hne
    | cons c rest =>
      obtain ⟨hc, hrest⟩ := List.forall_mem_cons.1 hd
      obtain ⟨hb, hdot, hcomma, hquote⟩ := plain_of_part (part_of_digit hc)
      -- what is no part of an identifier is no digit either
      have hend : ∀ x ∈ after.head?, Text.isAsciiDigit x = false := fun x hx => by
        rw [← Bool.not_eq_true]
        intro hdigit
        exact absurd (part_of_digit hdigit) (by rw [ha x hx]; exact Bool.false_ne_true)
      obtain ⟨htake, hdrop⟩ := span_run hrest hend
      refine ⟨c, rest, rfl, hb, ?_⟩
      rw [readToken, if_neg hdot, if_neg hcomma, if_neg hquote, if_pos hc, htake, hdrop]
  | @identifier c rest hc hrest =>
    obtain ⟨hb, hdot, hcomma, hquote⟩ := plain_of_part (part_of_start hc)
    obtain ⟨htake, hdrop⟩ := span_run hrest ha
    have hd : ¬ Text.isAsciiDigit c = true := by
      rw [not_digit_of_start hc]
      exact Bool.false_ne_true
    refine ⟨c, rest, rfl, hb, ?_⟩
    rw [readToken, if_neg hdot, if_neg hcomma, if_neg hquote, if_neg hd, if_pos hc, htake, hdrop]
  | @quoted inner text hq hne =>
    refine ⟨'"', inner ++ ['"'], rfl, by decide, ?_⟩
    rw [readToken, if_neg (by decide), if_neg (by decide), if_pos rfl, List.append_assoc]
    exact (readQuotedSegment_eq_ok_iff _ after _).2 ⟨inner, text, rfl, hq, hne, rfl⟩

/-- A text cut into tokens, with white space wherever it may be. -/
inductive Spells : List Char → List Token → Prop where
  | nil {blank : List Char} : Blank blank → Spells blank []
  | cons {before source rest : List Char} {token : Token} {tokens : List Token} : Blank before →
      TokenText source token → Spells rest tokens →
      Spells (before ++ source ++ rest) (token :: tokens)

/-- What spells a segment and tokens after it. -/
theorem Spells.of_segment {cs : List Char} {segment : String} {ts : List Token}
    (h : Spells cs (.segment segment :: ts)) :
    ∃ before source rest, cs = before ++ source ++ rest ∧ Blank before ∧
      SegmentText source segment ∧ Spells rest ts := by
  cases h with
  | @cons before source rest _ _ hb ht hrest =>
    cases ht with
    | segment hs => exact ⟨before, source, rest, rfl, hb, hs, hrest⟩

/-- What spells a segment, a separator and tokens after it. -/
theorem Spells.of_segment_separator {c : Char} {token : Token}
    (hone : ∀ {source}, TokenText source token → source = [c]) {cs : List Char} {segment : String}
    {ts : List Token} (h : Spells cs (.segment segment :: token :: ts)) :
    ∃ before source after rest, cs = before ++ source ++ after ++ c :: rest ∧ Blank before ∧
      SegmentText source segment ∧ Blank after ∧ Spells rest ts := by
  obtain ⟨before, source, _, rfl, hb, hs, hrest⟩ := h.of_segment
  cases hrest with
  | @cons after _ rest _ _ ha ht hrest =>
    obtain rfl := hone ht
    refine ⟨before, source, after, rest, ?_, hb, hs, ha, hrest⟩
    rw [List.append_assoc after, List.singleton_append, ← List.append_assoc]

theorem blank_takeWhile (cs : List Char) :
    Blank (cs.takeWhile Text.isBlank) := fun _ hc => List.mem_takeWhile_imp hc

theorem spells_tokens (cs : List Char) (h : (tokens cs).2 = none) : Spells cs (tokens cs).1 := by
  fun_induction tokens cs with
  | case1 cs hb =>
    refine .nil fun c hc => ?_
    exact List.dropWhile_eq_nil_iff.1 hb c hc
  | case2 cs c rest hb fault hr => exact absurd h (by simp)
  | case3 cs c rest hb token after hr _ more fault ht ih =>
    obtain ⟨source, hs, htoken⟩ := tokenText_of_readToken hr
    rw [ht] at ih
    have hc : cs = cs.takeWhile Text.isBlank ++ source ++ after := by
      rw [List.append_assoc, ← hs, ← hb, List.takeWhile_append_dropWhile]
    rw [hc]
    exact .cons (blank_takeWhile cs) htoken (ih h)

theorem tokens_blank {cs : List Char} (h : Blank cs) : tokens cs = ([], none) := by
  rw [tokens]
  split
  · rfl
  · rename_i c rest hb
    rw [List.dropWhile_eq_nil_iff.2 h] at hb
    exact absurd hb (by simp)

theorem dropWhile_blank_append {before : List Char} {c : Char} (hb : Blank before)
    (hc : Text.isBlank c = false) (rest : List Char) :
    (before ++ c :: rest).dropWhile Text.isBlank = c :: rest := by
  have hstop : ∀ x ∈ (c :: rest).head?, Text.isBlank x = false := by
    intro x hx
    cases hx
    exact hc
  exact (span_run hb hstop).2

/-- Behind blanks, one token is read, and the rest is scanned if there is one. -/
theorem tokens_append {before : List Char} (hb : Blank before) {c : Char}
    (hc : Text.isBlank c = false) (rest : List Char) :
    tokens (before ++ c :: rest) =
      match readToken c rest with
      | .error fault => ([], some fault)
      | .ok (token, after) => (token :: (tokens after).1, (tokens after).2) := by
  have hdrop := dropWhile_blank_append hb hc rest
  rw [tokens]
  split
  · next hd =>
    rw [hdrop] at hd
    cases hd
  · next hd =>
    rw [hdrop] at hd
    cases hd
    split
    · next he => rw [he]
    · next he =>
      simp only [he]

theorem tokens_cons {before rest after : List Char} {c : Char} {token : Token} (hb : Blank before)
    (hc : Text.isBlank c = false) (hr : readToken c rest = .ok (token, after)) :
    tokens (before ++ c :: rest) = (token :: (tokens after).1, (tokens after).2) := by
  rw [tokens_append hb hc, hr]

theorem tokens_of_error {before rest : List Char} {c : Char} {fault : Malformation}
    (hb : Blank before) (hc : Text.isBlank c = false) (hr : readToken c rest = .error fault) :
    tokens (before ++ c :: rest) = ([], some fault) := by
  rw [tokens_append hb hc, hr]

theorem tokens_segment {before source after : List Char} {segment : String} (hb : Blank before)
    (hs : SegmentText source segment) (ha : Ends after) :
    tokens (before ++ source ++ after) =
      (.segment segment :: (tokens after).1, (tokens after).2) := by
  obtain ⟨c, rest, rfl, hc, hr⟩ := readToken_of_segmentText hs ha
  rw [List.append_assoc, List.cons_append, tokens_cons hb hc hr]

end Key

end Sweep
