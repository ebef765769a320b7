import Sweep.Proofs.Key.Reading
import Sweep.Proofs.Text.Numeral

/-!
# The canonical form is read back

A key is written in its canonical form and read by the grammar, and the two fit together for exactly
those keys that the grammar can spell at all: keys with at least one segment, and no empty segment
(`Key.Spellable`).

Two things have to line up. What is written for a segment is the text of that segment in the
grammar, bare or quoted (`segmentText_displaySegment`). And a key that cannot be spelled leaves a
gap, a separator where a segment must stand or two quotes with nothing between them, at which
reading stops whatever comes before and after.
-/

set_option autoImplicit false

namespace Sweep.Key

/-- A key that the grammar has a text for. -/
def Spellable (key : Key) : Prop := key.segments ≠ [] ∧ "" ∉ key.segments

instance (key : Key) : Decidable key.Spellable := inferInstanceAs (Decidable (_ ∧ _))

/-- Keys in their canonical form, with commas between them. -/
def displaySet (keys : List Key) : String := String.intercalate "," (keys.map display)

/-! ## Segments -/

theorem names_hex (c : Char) : Names (Text.hex 8 c.toNat) c := by
  have hdigit : ∀ value < 16, HexDigit (Nat.digitChar value) value := by decide
  obtain ⟨values, hd, hall, hv⟩ := Text.exists_hex_values 8 c.toNat
  refine ⟨values, ?_, hv⟩
  rw [hd, List.forall₂_map_left_iff, List.forall₂_same]
  exact fun value hm => hdigit value (hall value hm)

/-- Between quotes a character is written as an escape that stands for it, or as it is where that
has no other meaning. -/
theorem escaped_cases (c : Char) :
    (∃ escape, escaped c = '\\' :: escape ∧ Escape escape c) ∨
      escaped c = [c] ∧ c ≠ '"' ∧ c ≠ '\\' ∧ c ≠ '\n' := by
  rw [escaped]
  by_cases hquote : c = '"'
  · rw [if_pos hquote, hquote]
    exact .inl ⟨['"'], rfl, .letter (by decide)⟩
  by_cases hslash : c = '\\'
  · rw [if_neg hquote, if_pos hslash, hslash]
    exact .inl ⟨['\\'], rfl, .letter (by decide)⟩
  by_cases hnewline : c = '\n'
  · rw [if_neg hquote, if_neg hslash, if_pos hnewline, hnewline]
    exact .inl ⟨['n'], rfl, .letter (by decide)⟩
  rw [if_neg hquote, if_neg hslash, if_neg hnewline]
  by_cases htab : c = '\t'
  · rw [if_pos htab, htab]
    exact .inl ⟨['t'], rfl, .letter (by decide)⟩
  by_cases hreturn : c = '\r'
  · rw [if_neg htab, if_pos hreturn, hreturn]
    exact .inl ⟨['r'], rfl, .letter (by decide)⟩
  rw [if_neg htab, if_neg hreturn]
  by_cases hcontrol : Text.isControl c = true
  · rw [if_pos hcontrol]
    exact .inl ⟨_, rfl, .long (Text.length_hex_char c) (names_hex c)⟩
  · rw [if_neg hcontrol]
    exact .inr ⟨rfl, hquote, hslash, hnewline⟩

/-- What is written for a character between quotes stands for that character. -/
theorem quotedText_escaped (c : Char) {source text : List Char} (h : QuotedText source text) :
    QuotedText (escaped c ++ source) (c :: text) := by
  rcases escaped_cases c with ⟨escape, he, hc⟩ | ⟨he, hquote, hslash, hnewline⟩
  · rw [he]
    exact .escape hc h
  · rw [he]
    exact .raw hquote hslash hnewline h

theorem quotedText_flatMap (text : List Char) : QuotedText (text.flatMap escaped) text := by
  induction text with
  | nil => exact .nil
  | cons c rest ih =>
    rw [List.flatMap_cons]
    exact quotedText_escaped c ih

theorem segmentText_of_isBare {cs : List Char} (h : isBare cs = true) :
    SegmentText cs (String.ofList cs) := by
  cases cs with
  | nil => exact absurd h (by simp [isBare])
  | cons c rest =>
    rw [isBare] at h
    by_cases hd : Text.isAsciiDigit c = true
    · rw [if_pos hd, List.all_eq_true] at h
      exact .digits (List.cons_ne_nil c rest) (List.forall_mem_cons.2 ⟨hd, h⟩)
    · rw [if_neg hd, Bool.and_eq_true, List.all_eq_true] at h
      exact .identifier h.1 h.2

theorem part_of_bare {cs : List Char} (h : isBare cs = true) :
    ∀ c ∈ cs, isIdentifierPart c = true := by
  cases cs with
  | nil => simp
  | cons c rest =>
    rw [isBare] at h
    split at h
    · next hd =>
      rw [List.all_eq_true] at h
      exact List.forall_mem_cons.2 ⟨part_of_digit hd, fun x hx => part_of_digit (h x hx)⟩
    · rw [Bool.and_eq_true, List.all_eq_true] at h
      exact List.forall_mem_cons.2 ⟨part_of_start h.1, h.2⟩

/-- **What is written for a segment is the text of that segment**, if there is anything to write. -/
theorem segmentText_displaySegment {segment : String} (h : segment ≠ "") :
    SegmentText (displaySegment segment) segment := by
  rw [displaySegment]
  by_cases hb : isBare segment.toList = true
  · rw [if_pos hb]
    have hs := segmentText_of_isBare hb
    rwa [String.ofList_toList] at hs
  · rw [if_neg hb]
    have hne : segment.toList ≠ [] := fun he => h (String.toList_eq_nil_iff.1 he)
    have hs := SegmentText.quoted (quotedText_flatMap segment.toList) hne
    rwa [String.ofList_toList] at hs

example :
    displaySegment "Größe" = "Größe".toList ∧
      displaySegment "2nd\u0085" = "\"2nd\\U00000085\"".toList := by
  decide +kernel

theorem SegmentText.ne_empty {source : List Char} {segment : String}
    (h : SegmentText source segment) :
    segment ≠ "" := by
  intro he
  cases h with
  | digits hne => exact hne (String.ofList_eq_empty_iff.1 he)
  | identifier => exact absurd (String.ofList_eq_empty_iff.1 he) (List.cons_ne_nil _ _)
  | quoted _ hne => exact hne (String.ofList_eq_empty_iff.1 he)

/-! ## Keys and key sets -/

theorem blank_nil : Blank [] := fun _ hc => absurd hc (List.not_mem_nil)

theorem displaySegments_cons_cons (first second : String) (rest : List String) :
    displaySegments (first :: second :: rest) =
      displaySegment first ++ '.' :: displaySegments (second :: rest) := rfl

theorem keyText_displaySegments {segments : List String} (hne : segments ≠ []) (h : "" ∉ segments) :
    KeyText (displaySegments segments) segments := by
  induction segments with
  | nil => exact absurd rfl hne
  | cons first rest ih =>
    rw [List.mem_cons, not_or] at h
    have hs := segmentText_displaySegment (Ne.symm h.1)
    cases rest with
    | nil =>
      have ht := KeyText.last blank_nil hs blank_nil
      rwa [List.nil_append, List.append_nil] at ht
    | cons second rest =>
      have ht := KeyText.cons blank_nil hs blank_nil (ih (List.cons_ne_nil _ _) h.2)
      rwa [List.nil_append, List.append_nil] at ht

/-- The canonical form of a key is the text of that key. -/
theorem Spellable.keyText {key : Key} (h : key.Spellable) :
    KeyText (displaySegments key.segments) key.segments :=
  keyText_displaySegments h.1 h.2

theorem KeyText.spellable {source : List Char} {segments : List String}
    (h : KeyText source segments) :
    Spellable ⟨segments⟩ := by
  induction h with
  | last _ hs _ =>
    refine ⟨List.cons_ne_nil _ _, ?_⟩
    rw [List.mem_singleton]
    exact hs.ne_empty.symm
  | cons _ hs _ _ ih =>
    refine ⟨List.cons_ne_nil _ _, ?_⟩
    rw [List.mem_cons, not_or]
    exact ⟨hs.ne_empty.symm, ih.2⟩

/-- The grammar has texts for no other keys. -/
theorem KeySetText.spellable {cs : List Char} {keys : List Key} (h : KeySetText cs keys) :
    ∀ key ∈ keys, key.Spellable := by
  induction h with
  | last hk =>
    intro key hm
    rw [List.mem_singleton.1 hm]
    exact hk.spellable
  | cons hk _ ih => exact List.forall_mem_cons.2 ⟨hk.spellable, ih⟩

theorem toList_display (key : Key) : key.display.toList = displaySegments key.segments := by
  rw [display, String.toList_ofList]

theorem toList_displaySet_singleton (key : Key) :
    (displaySet [key]).toList = displaySegments key.segments := by
  rw [displaySet, List.map_singleton, String.intercalate_singleton, toList_display]

theorem toList_displaySet_cons (first second : Key) (rest : List Key) :
    (displaySet (first :: second :: rest)).toList =
      displaySegments first.segments ++ ',' :: (displaySet (second :: rest)).toList := by
  rw [displaySet, displaySet, String.toList_intercalate, String.toList_intercalate, List.map_cons,
    List.map_cons, List.map_cons, List.map_cons, List.intercalate_cons_cons, toList_display,
    List.append_assoc]
  rfl

theorem keySetText_displaySet {keys : List Key} (hne : keys ≠ [])
    (h : ∀ key ∈ keys, key.Spellable) :
    KeySetText (displaySet keys).toList keys := by
  induction keys with
  | nil => exact absurd rfl hne
  | cons first rest ih =>
    obtain ⟨hf, hr⟩ := List.forall_mem_cons.1 h
    cases rest with
    | nil =>
      rw [toList_displaySet_singleton]
      exact .last hf.keyText
    | cons second rest =>
      rw [toList_displaySet_cons]
      exact .cons hf.keyText (ih (List.cons_ne_nil _ _) hr)

/-! ## Where reading stops -/

/-- Where the next token must be a segment, a fault of the scanner ends the reading. -/
theorem keysFrom_of_error {c : Char} {rest : List Char} {fault : Malformation}
    (hc : Text.isBlank c = false) (hr : readToken c rest = .error fault) (done : List Key)
    (path : List String) :
    keysFrom done path (c :: rest) = .error fault := by
  rw [keysFrom, ← List.nil_append (c :: rest), tokens_of_error blank_nil hc hr]
  rfl

theorem keysFrom_empty_quotes (done : List Key) (path : List String) (rest : List Char) :
    keysFrom done path ('"' :: '"' :: rest) = .error .emptyQuote := by
  apply keysFrom_of_error (by decide)
  rw [readToken, if_neg (by decide), if_neg (by decide), if_pos rfl, readQuotedSegment, readQuoted]

/-- The reading goes past a segment and its dot. -/
theorem keysFrom_displaySegment_dot {segment : String} (h : segment ≠ "") (done : List Key)
    (path : List String) (rest : List Char) :
    keysFrom done path (displaySegment segment ++ '.' :: rest) =
      keysFrom done (path ++ [segment]) rest := by
  have hdot : keysFrom done path ([] ++ displaySegment segment ++ [] ++ '.' :: rest) = _ :=
    keysFrom_dot blank_nil (segmentText_displaySegment h) blank_nil done path
  rwa [List.nil_append, List.append_nil] at hdot

/-- An empty segment is written as two quotes, which the scanner refuses. -/
theorem keysFrom_of_empty_mem (done : List Key) (path : List String) {segments : List String}
    (h : "" ∈ segments) (rest : List Char) :
    ∃ why, keysFrom done path (displaySegments segments ++ rest) = .error why := by
  induction segments generalizing path with
  | nil => exact absurd h List.not_mem_nil
  | cons first more ih =>
    by_cases he : first = ""
    · -- whatever comes next, the quotes stand in front of it
      refine ⟨.emptyQuote, ?_⟩
      rw [he]
      cases more with
      | nil => exact keysFrom_empty_quotes done path rest
      | cons second more => exact keysFrom_empty_quotes done path _
    · have hm : "" ∈ more := by
        rcases List.mem_cons.1 h with hf | hm
        · exact absurd hf.symm he
        · exact hm
      cases more with
      | nil => exact absurd hm List.not_mem_nil
      | cons second more =>
        obtain ⟨why, hw⟩ := ih (path ++ [first]) hm
        refine ⟨why, ?_⟩
        rw [displaySegments_cons_cons, List.append_assoc, List.cons_append,
          keysFrom_displaySegment_dot he, hw]

/-- Where a key must begin, there is no end and no comma. -/
theorem keysFrom_gap (done : List Key) {rest : List Char}
    (h : rest = [] ∨ ∃ more, rest = ',' :: more) :
    ∃ why, keysFrom done [] rest = .error why := by
  rcases h with rfl | ⟨more, rfl⟩
  · rw [keysFrom, tokens_blank blank_nil, keysOfTokens]
    exact ⟨_, rfl⟩
  · have hr : readToken ',' more = .ok (.comma, more) := by
      rw [readToken, if_neg (by decide), if_pos rfl]
    rw [keysFrom, ← List.nil_append (',' :: more), tokens_cons blank_nil (by decide) hr]
    exact ⟨_, rfl⟩

/-- A key that cannot be spelled is not read, wherever it stands in a key set. -/
theorem keysFrom_of_not_spellable (done : List Key) {key : Key} (h : ¬ key.Spellable)
    {rest : List Char} (hr : rest = [] ∨ ∃ more, rest = ',' :: more) :
    ∃ why, keysFrom done [] (displaySegments key.segments ++ rest) = .error why := by
  by_cases he : key.segments = []
  · rw [he]
    exact keysFrom_gap done hr
  · have hm : "" ∈ key.segments := by
      rw [Spellable, not_and, not_not] at h
      exact h he
    exact keysFrom_of_empty_mem done [] hm rest

theorem keysFrom_displaySet_of_not_spellable {keys : List Key} (hne : keys ≠ [])
    (h : ¬ ∀ key ∈ keys, key.Spellable) (done : List Key) :
    ∃ why, keysFrom done [] (displaySet keys).toList = .error why := by
  induction keys generalizing done with
  | nil => exact absurd rfl hne
  | cons first rest ih =>
    cases rest with
    | nil =>
      have hf : ¬ first.Spellable := by
        intro hf
        exact h (List.forall_mem_singleton.2 hf)
      rw [toList_displaySet_singleton, ← List.append_nil (displaySegments first.segments)]
      exact keysFrom_of_not_spellable done hf (.inl rfl)
    | cons second rest =>
      rw [toList_displaySet_cons]
      by_cases hf : first.Spellable
      · -- the first key is read, and the fault is further on
        rw [keysFrom_keyText_comma hf.keyText]
        refine ih (List.cons_ne_nil _ _) (fun hall => ?_) _
        exact h (List.forall_mem_cons.2 ⟨hf, hall⟩)
      · exact keysFrom_of_not_spellable done hf (.inr ⟨_, rfl⟩)

/-! ## There and back -/

theorem readSet_displaySet_eq_ok_iff {keys : List Key} (hne : keys ≠ []) :
    readSet (displaySet keys) = .ok keys ↔ ∀ key ∈ keys, key.Spellable := by
  rw [readSet_eq_ok_iff]
  constructor
  · exact KeySetText.spellable
  · exact keySetText_displaySet hne

/-- Exactly the keys that can be spelled are keys of some text. -/
theorem spellable_of_parse {text : String} {key : Key} (h : parse text = .ok key) :
    key.Spellable := by
  rw [parse_eq_ok_iff] at h
  exact h.spellable key List.mem_cons_self

theorem parse_display_of_spellable {key : Key} (h : key.Spellable) :
    parse key.display = .ok key := by
  rw [parse_eq_ok_iff, toList_display]
  exact .last h.keyText

/-- **The canonical form is read back exactly for the keys that can be spelled**; for any other keys
it is a malformed key, named with the whole text. So a key that was read is read again from its
canonical form, and no two such keys share one. -/
theorem parseSet_displaySet {keys : List Key} (hne : keys ≠ []) :
    (parseSet (displaySet keys) = .ok keys ↔ ∀ key ∈ keys, key.segments ≠ [] ∧ "" ∉ key.segments) ∧
      ((¬ ∀ key ∈ keys, key.segments ≠ [] ∧ "" ∉ key.segments) →
        ∃ why, parseSet (displaySet keys) = .error (.malformedKey (displaySet keys) why)) ∧
      (∀ text key, parse text = .ok key → parse key.display = .ok key) ∧
      ∀ text key otherText other, parse text = .ok key → parse otherText = .ok other →
        key.display = other.display → key = other := by
  refine ⟨?_, fun h => ?_, fun text key h => ?_, fun text key otherText other h ho he => ?_⟩
  · rw [parseSet, Except.mapError_eq_ok_iff]
    exact readSet_displaySet_eq_ok_iff hne
  · obtain ⟨why, hw⟩ := keysFrom_displaySet_of_not_spellable hne h []
    refine ⟨why, ?_⟩
    rw [parseSet, show readSet (displaySet keys) = .error why from hw]
    rfl
  · exact parse_display_of_spellable (spellable_of_parse h)
  · have hk := parse_display_of_spellable (spellable_of_parse h)
    rw [he, parse_display_of_spellable (spellable_of_parse ho)] at hk
    exact (Except.ok.inj hk).symm

/-- A key with a line break in a segment, and one whose digits come before letters. -/
theorem parseSet_displaySet_notes :
    [(⟨["run notes", "a\nb"]⟩ : Key), ⟨["2nd", "0"]⟩] ≠ [] ∧
      displaySet [⟨["run notes", "a\nb"]⟩, ⟨["2nd", "0"]⟩] = "\"run notes\".\"a\\nb\",\"2nd\".0" ∧
      parseSet "\"run notes\".\"a\\nb\",\"2nd\".0" =
        .ok [⟨["run notes", "a\nb"]⟩, ⟨["2nd", "0"]⟩] := by
  have hne : [(⟨["run notes", "a\nb"]⟩ : Key), ⟨["2nd", "0"]⟩] ≠ [] := by decide
  have hd : displaySet [⟨["run notes", "a\nb"]⟩, ⟨["2nd", "0"]⟩] =
      "\"run notes\".\"a\\nb\",\"2nd\".0" := by
    decide +kernel
  refine ⟨hne, hd, ?_⟩
  rw [← hd]
  exact (parseSet_displaySet hne).1.2 (by decide)

end Sweep.Key
