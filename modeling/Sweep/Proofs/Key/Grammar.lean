import Mathlib.Data.List.Forall2
import Sweep.Key.Reader

/-!
# The grammar of keys

The texts of keys and key sets, told without a scanner: which text stands for which segments.
Segments have dots between them, keys have commas between them, and white space may surround every
segment and separator.

* `Escape` : what stands after a backslash, with its character
* `QuotedText` : what stands between double quotes, with the text it stands for
* `SegmentText` : digits, an identifier or quoted text, with the segment it stands for
* `KeyText` and `KeySetText` : segments and keys with their separators

A text is cut into its pieces in whatever way there is; that there is one way only follows from the
reader agreeing with the grammar (`Sweep.Proofs.Key.Reading`).
-/

set_option autoImplicit false

namespace Sweep.Key

/-- White space and nothing else. -/
def Blank (cs : List Char) : Prop := ∀ c ∈ cs, Text.isBlank c = true

/-! ## Quoted segments -/

/-- A hexadecimal digit of either case, with its value. -/
def HexDigit (digit : Char) (value : Nat) : Prop :=
  "0123456789abcdef".toList[value]? = some digit ∨ "0123456789ABCDEF".toList[value]? = some digit

instance (digit : Char) (value : Nat) :
    Decidable (HexDigit digit value) := inferInstanceAs (Decidable (_ ∨ _))

/-- Hexadecimal digits that name a character, most significant digit first. -/
def Names (digits : List Char) (c : Char) : Prop :=
  ∃ values, List.Forall₂ HexDigit digits values ∧
    values.foldl (fun n value => n * 16 + value) 0 = c.toNat

/-- The letters of escapes, with their characters. -/
def escapeLetters : List (Char × Char) := [
  ('"', '"'), ('\\', '\\'), ('\'', '\''), ('n', '\n'), ('t', '\t'), ('r', '\r'), ('a', '\x07'),
  ('b', '\x08'), ('f', '\x0c'), ('v', '\x0b')]

/-- An escape without its backslash, with the character it stands for. -/
inductive Escape : List Char → Char → Prop where
  | letter {l c : Char} : (l, c) ∈ escapeLetters → Escape [l] c
  | short {digits : List Char} {c : Char} : digits.length = 4 → Names digits c →
      Escape ('u' :: digits) c
  | long {digits : List Char} {c : Char} : digits.length = 8 → Names digits c →
      Escape ('U' :: digits) c

/-- What stands between double quotes, with the text it stands for. -/
inductive QuotedText : List Char → List Char → Prop where
  | nil : QuotedText [] []
  | raw {c : Char} {source text : List Char} : c ≠ '"' → c ≠ '\\' → c ≠ '\n' →
      QuotedText source text → QuotedText (c :: source) (c :: text)
  | escape {escape : List Char} {c : Char} {source text : List Char} : Escape escape c →
      QuotedText source text → QuotedText ('\\' :: escape ++ source) (c :: text)

/-! ## Segments, keys and key sets -/

/-- The text of a segment. -/
inductive SegmentText : List Char → String → Prop where
  | digits {cs : List Char} : cs ≠ [] → (∀ c ∈ cs, Text.isAsciiDigit c = true) →
      SegmentText cs (String.ofList cs)
  | identifier {c : Char} {cs : List Char} : isIdentifierStart c = true →
      (∀ x ∈ cs, isIdentifierPart x = true) → SegmentText (c :: cs) (String.ofList (c :: cs))
  | quoted {source text : List Char} : QuotedText source text → text ≠ [] →
      SegmentText ('"' :: source ++ ['"']) (String.ofList text)

/-- The text of segments with dots between them. -/
inductive KeyText : List Char → List String → Prop where
  | last {before source after : List Char} {segment : String} : Blank before →
      SegmentText source segment → Blank after → KeyText (before ++ source ++ after) [segment]
  | cons {before source after rest : List Char} {segment : String} {segments : List String} :
      Blank before → SegmentText source segment → Blank after → KeyText rest segments →
      KeyText (before ++ source ++ after ++ '.' :: rest) (segment :: segments)

/-- The text of keys with commas between them. -/
inductive KeySetText : List Char → List Key → Prop where
  | last {source : List Char} {segments : List String} : KeyText source segments →
      KeySetText source [⟨segments⟩]
  | cons {source rest : List Char} {segments : List String} {keys : List Key} :
      KeyText source segments → KeySetText rest keys →
      KeySetText (source ++ ',' :: rest) (⟨segments⟩ :: keys)

/-- One more segment in front of the first key. -/
theorem KeySetText.cons_segment {before source after rest : List Char} {segment : String}
    {segments : List String} {keys : List Key} (hb : Blank before) (hs : SegmentText source segment)
    (ha : Blank after) (h : KeySetText rest (⟨segments⟩ :: keys)) :
    KeySetText (before ++ source ++ after ++ '.' :: rest) (⟨segment :: segments⟩ :: keys) := by
  cases h with
  | last hk => exact .last (.cons hb hs ha hk)
  | @cons first rest _ _ hk hrest =>
    have hc := KeySetText.cons (KeyText.cons hb hs ha hk) hrest
    rw [List.append_assoc, List.cons_append] at hc
    exact hc

end Sweep.Key
