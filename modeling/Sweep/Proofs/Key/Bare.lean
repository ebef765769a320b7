import Sweep.Proofs.Key.Display

/-!
# Quotes only where they are needed

Whether a segment can stand without quotes is decided from its characters (`isBare`); what a text
without quotes means is decided by the scanner. The two agree: a segment is bare exactly if its own
text, read as a key, is that one segment again.

One direction is the round trip of the canonical form. The other is a matter of length. White space,
escapes and quotes only ever add to the characters of a segment, so a quoted text is longer than
what it stands for (`SegmentText.isBare_or_longer`), and a text that stands for itself has no room
for any of them.
-/

set_option autoImplicit false

namespace Sweep.Key

/-! ## How long a text is -/

/-- Between quotes a character takes one place as it is, and more as an escape. -/
theorem QuotedText.length_le {source text : List Char} (h : QuotedText source text) :
    text.length ≤ source.length := by
  induction h with
  | nil => exact Nat.le_refl 0
  | raw _ _ _ _ ih => exact Nat.succ_le_succ ih
  | @escape escape c source text _ _ ih =>
    rw [List.length_cons, List.length_append, List.length_cons]
    omega

theorem length_between_quotes {source text : List Char} (h : QuotedText source text) :
    text.length + 2 ≤ ('"' :: source ++ ['"']).length := by
  have hle := h.length_le
  rw [List.length_append, List.length_cons, List.length_singleton]
  omega

/-! ## Bare segments -/

theorem isBare_of_digits {cs : List Char} (hne : cs ≠ [])
    (h : ∀ c ∈ cs, Text.isAsciiDigit c = true) :
    isBare cs = true := by
  cases cs with
  | nil => exact absurd rfl hne
  | cons c rest =>
    obtain ⟨hc, hrest⟩ := List.forall_mem_cons.1 h
    rw [isBare, if_pos hc, List.all_eq_true]
    exact hrest

theorem isBare_of_identifier {c : Char} {rest : List Char} (hc : isIdentifierStart c = true)
    (hrest : ∀ x ∈ rest, isIdentifierPart x = true) : isBare (c :: rest) = true := by
  have hd : ¬ Text.isAsciiDigit c = true := by
    rw [not_digit_of_start hc]
    exact Bool.false_ne_true
  rw [isBare, if_neg hd, Bool.and_eq_true, List.all_eq_true]
  exact ⟨hc, hrest⟩

/-- **A text of a segment is the bare segment itself, or it is longer** than the segment. -/
theorem SegmentText.isBare_or_longer {source : List Char} {segment : String}
    (h : SegmentText source segment) :
    (source = segment.toList ∧ isBare source = true) ∨ segment.toList.length < source.length := by
  cases h with
  | digits hne hd =>
    rw [String.toList_ofList]
    exact .inl ⟨rfl, isBare_of_digits hne hd⟩
  | identifier hc hrest =>
    rw [String.toList_ofList]
    exact .inl ⟨rfl, isBare_of_identifier hc hrest⟩
  | quoted hq _ =>
    rw [String.toList_ofList]
    have hl := length_between_quotes hq
    exact .inr (by omega)

theorem displaySegment_eq_self_iff (segment : String) :
    displaySegment segment = segment.toList ↔ isBare segment.toList = true := by
  rw [displaySegment]
  by_cases hb : isBare segment.toList = true
  · rw [if_pos hb]
    exact iff_of_true rfl hb
  · rw [if_neg hb, iff_false_right hb]
    intro he
    have hl := length_between_quotes (quotedText_flatMap segment.toList)
    rw [← quoted, he] at hl
    omega

/-! ## Keys of one segment -/

/-- The texts of a key of one segment are the texts of that segment, with white space around
them. -/
theorem keyText_singleton_iff {cs : List Char} {segment : String} :
    KeyText cs [segment] ↔
      ∃ before source after, cs = before ++ source ++ after ∧ Blank before ∧
        SegmentText source segment ∧ Blank after := by
  constructor
  · intro h
    cases h with
    | last hb hs ha => exact ⟨_, _, _, rfl, hb, hs, ha⟩
    | cons _ _ _ hrest => exact absurd rfl hrest.spellable.1
  · rintro ⟨before, source, after, rfl, hb, hs, ha⟩
    exact .last hb hs ha

theorem keySetText_singleton_iff {cs : List Char} {key : Key} :
    KeySetText cs [key] ↔ KeyText cs key.segments := by
  constructor
  · intro h
    cases h with
    | last hk => exact hk
    | cons _ hrest => cases hrest
  · exact .last

/-- A text that stands for itself is the bare segment. -/
theorem keyText_self_iff (segment : String) :
    KeyText segment.toList [segment] ↔ isBare segment.toList = true := by
  rw [keyText_singleton_iff]
  constructor
  · rintro ⟨before, source, after, he, -, hs, -⟩
    have hl : segment.toList.length = before.length + source.length + after.length := by
      rw [he, List.length_append, List.length_append]
    rcases hs.isBare_or_longer with ⟨hsource, hb⟩ | hlonger
    · rw [← hsource]
      exact hb
    · omega
  · intro hb
    have hs := segmentText_of_isBare hb
    rw [String.ofList_toList] at hs
    exact ⟨[], segment.toList, [], by rw [List.nil_append, List.append_nil], blank_nil,
      hs, blank_nil⟩

/-- **A segment is bare exactly if its own text is read as that segment and nothing else**; so it is
written without quotes exactly where the grammar needs none. -/
theorem isBare_iff_parse_self (segment : String) :
    (isBare segment.toList = true ↔ parse segment = .ok ⟨[segment]⟩) ∧
      (displaySegment segment = segment.toList ↔ parse segment = .ok ⟨[segment]⟩) := by
  have h : isBare segment.toList = true ↔ parse segment = .ok ⟨[segment]⟩ := by
    rw [parse_eq_ok_iff, keySetText_singleton_iff, keyText_self_iff]
  exact ⟨h, (displaySegment_eq_self_iff segment).trans h⟩

/-- White space, quotes and dots are read without a fault, but not as the text that they stand
in. -/
example :
    parse " run" = .ok ⟨["run"]⟩ ∧ parse "\"run\"" = .ok ⟨["run"]⟩ ∧
      parse "run.0" = .ok ⟨["run", "0"]⟩ ∧ isBare " run".toList = false ∧
      isBare "\"run\"".toList = false ∧ isBare "run.0".toList = false := by
  decide +kernel

end Sweep.Key
