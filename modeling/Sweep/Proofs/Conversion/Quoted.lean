import Sweep.Proofs.Conversion.Filling
import Sweep.Proofs.Text.Decimal

/-!
# Quoted texts and bytes, read back

Between quotes a character is written as an escape or as itself (`escaped_cases`), and an escape
names just one character whatever comes after it: a letter names one alone, `\x` takes exactly two
hexadecimal digits and `\u` exactly four. So a quoted text is read back character by character
(`unquote?`), and no two texts are quoted alike. The bytes of a text are read back from pairs of
digits (`readPairs?`).
-/

set_option autoImplicit false

namespace Sweep.Conversion

/-! ## Reading between quotes -/

/-- The character that a one-letter escape stands for. -/
def letterEscape? (c : Char) : Option Char :=
  if c = '"' ∨ c = '\\' then some c
  else if c = 'a' then some '\x07'
  else if c = 'b' then some '\x08'
  else if c = 'f' then some '\x0c'
  else if c = 'n' then some '\n'
  else if c = 'r' then some '\r'
  else if c = 't' then some '\t'
  else if c = 'v' then some '\x0b'
  else none

/-- The character that an escape stands for, read after its backslash, and the text after it. -/
def readEscape : List Char → Option (Char × List Char)
  | [] => none
  | c :: rest =>
    if c = 'x' then Text.readHexChar 2 rest
    else if c = 'u' then Text.readHexChar 4 rest
    else (letterEscape? c).map (·, rest)

theorem length_readEscape {cs rest : List Char} {x : Char} (h : readEscape cs = some (x, rest)) :
    rest.length < cs.length := by
  cases cs with
  | nil => cases h
  | cons c tail =>
    rw [readEscape] at h
    rw [List.length_cons]
    split at h
    · have := Text.length_readHexChar h
      omega
    · split at h
      · have := Text.length_readHexChar h
        omega
      · obtain ⟨_, -, hx⟩ := Option.map_eq_some_iff.1 h
        cases hx
        exact Nat.lt_succ_self _

/-- What stands in front of a closing quote, which must be the last character. -/
def readQuoted : List Char → Option (List Char)
  | [] => none
  | '"' :: rest => if rest = [] then some [] else none
  | '\\' :: rest =>
    match h : readEscape rest with
    | none => none
    | some (c, after) =>
      have := length_readEscape h
      (readQuoted after).map (c :: ·)
  | c :: rest => (readQuoted rest).map (c :: ·)
termination_by cs => cs.length

/-- The text that a quoted text stands for. -/
def unquote? : List Char → Option (List Char)
  | '"' :: rest => readQuoted rest
  | _ => none

/-- Whether there is a quote that no backslash escapes; a backslash escapes the character after
it. -/
def hasBareQuote : List Char → Bool
  | [] => false
  | '"' :: _ => true
  | '\\' :: _ :: rest => hasBareQuote rest
  | _ :: rest => hasBareQuote rest

/-! ## One character -/

/-- A character that stands for itself between quotes. -/
def isRaw (c : Char) : Bool := c != '"' && c != '\\' && !Text.isControl c

theorem isRaw_iff (c : Char) : isRaw c = true ↔ c ≠ '"' ∧ c ≠ '\\' ∧ Text.isControl c = false := by
  rw [isRaw, Bool.and_eq_true, Bool.and_eq_true, bne_iff_ne, bne_iff_ne,
    Bool.not_eq_true', and_assoc]

theorem isRaw_hex {width n : Nat} : ∀ c ∈ Text.hex width n, isRaw c = true := by
  have hdigit : ∀ value < 16, isRaw (Nat.digitChar value) = true := by decide
  intro c hc
  obtain ⟨value, hlt, rfl⟩ := Text.exists_of_mem_hex hc
  exact hdigit value hlt

theorem isControl_of_ascii {c : Char} (h : Text.isAsciiControl c = true) :
    Text.isControl c = true ∧ c.toNat < 16 ^ 2 := by
  rw [Text.isAsciiControl, Bool.or_eq_true, decide_eq_true_eq, decide_eq_true_eq] at h
  rw [Text.isControl, Bool.or_eq_true, Bool.and_eq_true, decide_eq_true_eq, decide_eq_true_eq,
    decide_eq_true_eq]
  omega

theorem toNat_lt_of_control {c : Char} (h : Text.isControl c = true) : c.toNat < 16 ^ 4 := by
  rw [Text.isControl, Bool.or_eq_true, Bool.and_eq_true, decide_eq_true_eq, decide_eq_true_eq,
    decide_eq_true_eq] at h
  omega

/-- What is written behind a backslash for a character. -/
inductive Escape : List Char → Char → Prop
  | letter {letter c : Char} : letterEscape? letter = some c → Escape [letter] c
  | ascii {c : Char} : Text.isAsciiControl c = true → Escape ('x' :: Text.hex 2 c.toNat) c
  | control {c : Char} : Text.isControl c = true → Escape ('u' :: Text.hex 4 c.toNat) c

theorem mem_letters {letter c : Char} (h : letterEscape? letter = some c) :
    letter ∈ ['"', '\\', 'a', 'b', 'f', 'n', 'r', 't', 'v'] := by
  rw [letterEscape?] at h
  split_ifs at h with hself ha hb hf hn hr ht hv
  · rcases hself with rfl | rfl <;> decide
  all_goals subst letter; decide

namespace Escape

variable {text : List Char} {c : Char}

/-- An escape is read up to its own end, even if the text goes on with more digits. -/
theorem read (h : Escape text c) (rest : List Char) :
    readEscape (text ++ rest) = some (c, rest) := by
  cases h with
  | @letter letter _ hletter =>
    have hmem := mem_letters hletter
    have hx : letter ≠ 'x' := by rintro rfl; exact absurd hmem (by decide)
    have hu : letter ≠ 'u' := by rintro rfl; exact absurd hmem (by decide)
    rw [List.singleton_append, readEscape, if_neg hx, if_neg hu, hletter, Option.map_some]
  | ascii hascii =>
    rw [List.cons_append, readEscape, if_pos rfl]
    exact Text.readHexChar_hex (Text.length_hex (by decide) (isControl_of_ascii hascii).2) rest
  | control hcontrol =>
    rw [List.cons_append, readEscape, if_neg (by decide), if_pos rfl]
    exact Text.readHexChar_hex (Text.length_hex (by decide) (toNat_lt_of_control hcontrol)) rest

/-- Behind the character that the backslash escapes there are only digits. -/
theorem exists_mark (h : Escape text c) :
    ∃ mark digits, text = mark :: digits ∧ Text.isControl mark = false ∧
      ∀ x ∈ digits, isRaw x = true := by
  cases h with
  | @letter letter _ hletter =>
    have hmarks :
      ['"', '\\', 'a', 'b', 'f', 'n', 'r', 't', 'v'].all (!Text.isControl ·) = true := rfl
    have hmark := List.all_eq_true.1 hmarks letter (mem_letters hletter)
    rw [Bool.not_eq_true'] at hmark
    exact ⟨letter, [], rfl, hmark, List.forall_mem_nil _⟩
  | ascii => exact ⟨'x', _, rfl, by decide, isRaw_hex⟩
  | control => exact ⟨'u', _, rfl, by decide, isRaw_hex⟩

end Escape

/-- Between quotes a character is written as an escape, or as it is where that has no other
meaning. -/
theorem escaped_cases (c : Char) :
    (∃ text, escaped c = '\\' :: text ∧ Escape text c) ∨ escaped c = [c] ∧ isRaw c = true := by
  by_cases hletter : c ∈ ['"', '\\', '\x07', '\x08', '\x0c', '\n', '\r', '\t', '\x0b']
  · simp only [List.mem_cons, List.not_mem_nil, or_false] at hletter
    rcases hletter with rfl | rfl | rfl | rfl | rfl | rfl | rfl | rfl | rfl <;>
      exact .inl ⟨_, rfl, .letter rfl⟩
  · simp only [List.mem_cons, List.not_mem_nil, or_false, not_or] at hletter
    obtain ⟨hquote, hslash, halarm, hback, hfeed, hnewline, hreturn, htab, hvertical⟩ := hletter
    rw [escaped, if_neg hquote, if_neg hslash, if_neg halarm, if_neg hback, if_neg hfeed,
      if_neg hnewline, if_neg hreturn, if_neg htab, if_neg hvertical]
    by_cases hascii : Text.isAsciiControl c = true
    · rw [if_pos hascii]
      exact .inl ⟨_, rfl, .ascii hascii⟩
    rw [if_neg hascii]
    by_cases hcontrol : Text.isControl c = true
    · rw [if_pos hcontrol]
      exact .inl ⟨_, rfl, .control hcontrol⟩
    · rw [if_neg hcontrol]
      exact .inr ⟨rfl, (isRaw_iff c).2 ⟨hquote, hslash, Bool.eq_false_iff.2 hcontrol⟩⟩

/-! ## A whole text -/

theorem isControl_escaped (c : Char) : ∀ x ∈ escaped c, Text.isControl x = false := by
  rcases escaped_cases c with ⟨text, he, hescape⟩ | ⟨he, hraw⟩ <;> rw [he]
  · obtain ⟨mark, digits, rfl, hmark, hdigits⟩ := hescape.exists_mark
    rw [List.forall_mem_cons, List.forall_mem_cons]
    exact ⟨by decide, hmark, fun x hx => ((isRaw_iff x).1 (hdigits x hx)).2.2⟩
  · exact List.forall_mem_singleton.2 ((isRaw_iff c).1 hraw).2.2

theorem hasBareQuote_raw {cs : List Char} (h : ∀ c ∈ cs, isRaw c = true) (rest : List Char) :
    hasBareQuote (cs ++ rest) = hasBareQuote rest := by
  induction cs with
  | nil => rfl
  | cons c cs ih =>
    rw [List.forall_mem_cons] at h
    obtain ⟨hquote, hslash, -⟩ := (isRaw_iff c).1 h.1
    rw [List.cons_append, hasBareQuote, ih h.2]
    · exact hquote
    · rintro _ _ rfl
      exact absurd rfl hslash

theorem hasBareQuote_escaped (c : Char) (rest : List Char) :
    hasBareQuote (escaped c ++ rest) = hasBareQuote rest := by
  rcases escaped_cases c with ⟨text, he, hescape⟩ | ⟨he, hraw⟩ <;> rw [he]
  · obtain ⟨mark, digits, rfl, -, hdigits⟩ := hescape.exists_mark
    rw [List.cons_append, List.cons_append, hasBareQuote, hasBareQuote_raw hdigits]
  · exact hasBareQuote_raw (List.forall_mem_singleton.2 hraw) rest

theorem readQuoted_escaped (c : Char) (rest : List Char) :
    readQuoted (escaped c ++ rest) = (readQuoted rest).map (c :: ·) := by
  rcases escaped_cases c with ⟨text, he, hescape⟩ | ⟨he, hraw⟩ <;> rw [he]
  · rw [List.cons_append, readQuoted]
    split
    · next hn =>
      rw [hescape.read] at hn
      cases hn
    · next hs =>
      rw [hescape.read] at hs
      cases hs
      rfl
  · obtain ⟨hquote, hslash, -⟩ := (isRaw_iff c).1 hraw
    rw [List.singleton_append, readQuoted]
    · exact hquote
    · exact hslash

/-- `text` is a quoted form of `cs`: no control character in it, no quote between its own two that
is not escaped, and it is read back. -/
structure Quotes (text cs : List Char) : Prop where
  printable : ∀ x ∈ text, Text.isControl x = false
  between : ∃ inner, text = '"' :: inner ++ ['"'] ∧ hasBareQuote inner = false
  unquoted : unquote? text = some cs

/-- **A text is quoted so that it can be read back.** -/
theorem quotes_quoted (cs : List Char) : Quotes (quoted cs) cs := by
  refine ⟨?_, ⟨cs.flatMap escaped, rfl, ?_⟩, ?_⟩
  · intro x hx
    rw [quoted, List.mem_append, List.mem_cons, List.mem_flatMap, List.mem_singleton] at hx
    rcases hx with (rfl | ⟨c, -, hc⟩) | rfl
    · decide
    · exact isControl_escaped c x hc
    · decide
  · induction cs with
    | nil => rfl
    | cons c cs ih => rw [List.flatMap_cons, hasBareQuote_escaped, ih]
  · rw [quoted, List.cons_append, unquote?]
    induction cs with
    | nil =>
      rw [List.flatMap_nil, List.nil_append, readQuoted]
      rfl
    | cons c cs ih =>
      rw [List.flatMap_cons, List.append_assoc, readQuoted_escaped, ih]
      rfl

/-- No two texts are quoted alike. -/
theorem quoted_injective : Function.Injective quoted := by
  intro cs ds h
  have hread := (quotes_quoted cs).unquoted
  rw [h, (quotes_quoted ds).unquoted] at hread
  exact (Option.some.inj hread).symm

/-! ## Bytes -/

/-- The numbers that pairs of hexadecimal digits of either case stand for. -/
def readPairs? : List Char → Option (List Nat)
  | [] => some []
  | [_] => none
  | high :: low :: rest =>
    match Text.readHex 2 0 [high, low] with
    | some (n, _) => (readPairs? rest).map (n :: ·)
    | none => none

/-- Pairs of digits are read back, whatever way of writing a byte by two digits it is. -/
theorem readPairs?_flatMap {write : Nat → List Char} {bytes : List Nat}
    (hpair : ∀ n ∈ bytes, (write n).length = 2 ∧ Text.readHex 2 0 (write n) = some (n, [])) :
    readPairs? (bytes.flatMap write) = some bytes := by
  induction bytes with
  | nil => rfl
  | cons n bytes ih =>
    rw [List.forall_mem_cons] at hpair
    obtain ⟨high, low, hwrite⟩ := List.length_eq_two.1 hpair.1.1
    have hread := hpair.1.2
    rw [hwrite] at hread
    rw [List.flatMap_cons, hwrite, List.cons_append, List.cons_append, List.nil_append, readPairs?,
      hread, ih hpair.2]
    rfl

/-- The bytes of a text in UTF-8, as numbers. -/
def utf8 (s : String) : List Nat := s.toUTF8.data.toList.map UInt8.toNat

theorem lt_of_mem_utf8 {s : String} {n : Nat} (h : n ∈ utf8 s) : n < 16 ^ 2 := by
  obtain ⟨byte, -, rfl⟩ := List.mem_map.1 h
  exact byte.toNat_lt

theorem hexBytes_eq (s : String) : hexBytes s = (utf8 s).flatMap (Text.hex 2) := by
  rw [hexBytes, utf8, List.flatMap_map]

/-- **The bytes of a text are read back** from their digits. -/
theorem readPairs?_hexBytes (s : String) : readPairs? (hexBytes s) = some (utf8 s) := by
  rw [hexBytes_eq]
  refine readPairs?_flatMap fun n hn => ?_
  have hlength := Text.length_hex (by decide) (lt_of_mem_utf8 hn)
  have hread := Text.readHex_hex hlength []
  rw [List.append_nil] at hread
  exact ⟨hlength, hread⟩

/-- So are they in upper case. -/
theorem readPairs?_hexBytes_toUpper (s : String) :
    readPairs? ((hexBytes s).map Char.toUpper) = some (utf8 s) := by
  rw [hexBytes_eq, List.map_flatMap]
  refine readPairs?_flatMap fun n hn => ?_
  have hlength := Text.length_hex (by decide) (lt_of_mem_utf8 hn)
  have hread := Text.readHex_hex_toUpper hlength []
  rw [List.append_nil] at hread
  exact ⟨by rw [List.length_map, hlength], hread⟩

/-! ## The two conversions of a text -/

/-- A conversion that spells a value as a text puts it between its literal texts, with spaces up to
the width. -/
theorem apply_of_spell_text {c : Conversion} {v : Value} {chars : List Char}
    (h : c.directive.spell v = .ok (.text chars)) :
    ∃ front back : Nat, c.apply v = .ok (c.before.toList ++
      (List.replicate front ' ' ++ (chars ++ List.replicate back ' ')) ++ c.after.toList) := by
  obtain ⟨front, back, hfill⟩ := c.directive.exists_fillSpaces chars
  refine ⟨front, back, ?_⟩
  rw [Conversion.apply, h]
  simp only
  rw [Directive.fill, hfill]

theorem spell_quoted {d : Directive} (h : d.verb = .q) (s : String) :
    d.spell (.text s) = .ok (.text (quoted s.toList)) := by
  rw [Directive.spell, h]

theorem spell_bytes {d : Directive} (h : d.verb ∈ [Verb.x, .upperX]) (s : String) :
    ∃ digits, d.spell (.text s) = .ok (.text digits) ∧ readPairs? digits = some (utf8 s) := by
  simp only [List.mem_cons, List.not_mem_nil, or_false] at h
  rcases h with h | h
  · refine ⟨hexBytes s, ?_, readPairs?_hexBytes s⟩
    rw [Directive.spell, h]
    rfl
  · refine ⟨(hexBytes s).map Char.toUpper, ?_, readPairs?_hexBytes_toUpper s⟩
    rw [Directive.spell, h]
    rfl

/-- **Nothing of a text is lost** when it is quoted or spelled as bytes: it is read back from
between its quotes, and its bytes from their digits of either case. -/
theorem apply_keeps_text (s : String) :
    (Quotes (quoted s.toList) s.toList ∧ ∀ t : String, quoted t.toList = quoted s.toList → t = s) ∧
    (∀ c : Conversion, c.directive.verb = .q →
      ∃ front back : Nat, c.apply (.text s) = .ok (c.before.toList ++
        (List.replicate front ' ' ++ (quoted s.toList ++ List.replicate back ' ')) ++
        c.after.toList)) ∧
    ∀ c : Conversion, c.directive.verb ∈ [Verb.x, .upperX] →
      ∃ (front back : Nat) (digits : List Char), c.apply (.text s) = .ok (c.before.toList ++
        (List.replicate front ' ' ++ (digits ++ List.replicate back ' ')) ++ c.after.toList) ∧
        readPairs? digits = some (utf8 s) := by
  refine ⟨⟨quotes_quoted _, fun t h => String.toList_injective (quoted_injective h)⟩,
    fun c hverb => ?_, fun c hverb => ?_⟩
  · exact apply_of_spell_text (spell_quoted hverb s)
  · obtain ⟨digits, hspell, hread⟩ := spell_bytes hverb s
    obtain ⟨front, back, happly⟩ := apply_of_spell_text hspell
    exact ⟨front, back, digits, happly, hread⟩

/-- A quoted text, at least nine characters wide. -/
def nineQuoted : Conversion := ⟨"", ⟨true, false, false, false, false, some 9, none, .q⟩, "."⟩

/-- The bytes of a text in upper case. -/
def upperBytes : Conversion := ⟨"", ⟨false, false, false, false, false, none, none, .upperX⟩, ""⟩

/-- Behind the escape for the first character stands a letter that is a hexadecimal digit. -/
theorem apply_keeps_text_control :
    (nineQuoted.directive.verb = .q ∧ upperBytes.directive.verb ∈ [Verb.x, .upperX]) ∧
      (∃ front back : Nat, nineQuoted.apply (.text "\x1bf") = .ok ("".toList ++
        (List.replicate front ' ' ++ (quoted "\x1bf".toList ++ List.replicate back ' ')) ++
        ".".toList)) ∧
      ∃ (front back : Nat) (digits : List Char),
        upperBytes.apply (.text "\x1bf") =
          .ok ("".toList ++ (List.replicate front ' ' ++
            (digits ++ List.replicate back ' ')) ++ "".toList) ∧
        readPairs? digits = some (utf8 "\x1bf") := by
  have hverb : upperBytes.directive.verb ∈ [Verb.x, .upperX] := by decide
  obtain ⟨-, hquoted, hbytes⟩ := apply_keeps_text "\x1bf"
  exact ⟨⟨rfl, hverb⟩, hquoted nineQuoted rfl, hbytes upperBytes hverb⟩

example : nineQuoted.apply (.text "\x1bf\u0085") = .ok "\"\\x1bf\\u0085\".".toList ∧
    upperBytes.apply (.text "\x1bfö") = .ok "1B66C3B6".toList := by decide +kernel

end Sweep.Conversion
