import Sweep.Proofs.Key.Display
import Sweep.Proofs.Template.Rendering

/-!
# Keys between braces

A placeholder is found without regard to quotes: its key text ends at the first brace or bar, also
inside a quoted segment. So a key in its canonical form can stand between braces exactly if none of
its segments has one of these characters. Otherwise the key text ends inside quotes. The canonical
form never leaves a quote open anywhere else, since every quote of a segment is escaped; so what is
cut off is no key, whatever the rest would be taken for, and the text is no template
(`not_isTemplate_braced`). No part of a segment is ever read as another key or as a format.
-/

set_option autoImplicit false

namespace Sweep

namespace Key

/-! ## Quoted text cut short -/

/-- Escaped text closes no quote. -/
theorem readQuoted_flatMap_escaped (text : List Char) :
    readQuoted (text.flatMap escaped) = .error .unterminatedQuote := by
  induction text with
  | nil =>
    rw [List.flatMap_nil, readQuoted]
  | cons c rest ih =>
    rw [List.flatMap_cons]
    rcases escaped_cases c with ⟨escape, he, hc⟩ | ⟨he, hquote, hslash, hnewline⟩
    · have hread : readEscape (escape ++ rest.flatMap escaped) = some (c, rest.flatMap escaped) :=
        (readEscape_eq_some_iff _ _ c).2 ⟨escape, rfl, hc⟩
      rw [he, List.cons_append, readQuoted_escape hread, ih]
      rfl
    · rw [he, List.singleton_append, readQuoted_raw hquote hslash hnewline, ih]
      rfl

theorem keysFrom_open_quote (done : List Key) (path : List String) (text : List Char) :
    keysFrom done path ('"' :: text.flatMap escaped) = .error .unterminatedQuote := by
  apply keysFrom_of_error (by decide)
  rw [readToken, if_neg (by decide), if_neg (by decide), if_pos rfl, readQuotedSegment,
    readQuoted_flatMap_escaped]

end Key

namespace Template

open Key

/-! ## The characters of the canonical form -/

theorem isKeyChar_of_part {c : Char} (h : isIdentifierPart c = true) : isKeyChar c = true := by
  rw [isKeyChar_iff]
  refine ⟨⟨?_, ?_⟩, ?_⟩
  all_goals
    rintro rfl
    exact absurd h (by decide +kernel)

theorem isKeyChar_of_bare {cs : List Char} (h : isBare cs = true) :
    ∀ c ∈ cs, isKeyChar c = true := by
  intro c hc
  exact isKeyChar_of_part (part_of_bare h c hc)

theorem isKeyChar_of_hexDigit {digit : Char} {value : Nat} (h : HexDigit digit value) :
    isKeyChar digit = true := by
  have hlower : ∀ c ∈ "0123456789abcdef".toList, isKeyChar c = true :=
    List.all_eq_true.1 (by decide)
  have hupper : ∀ c ∈ "0123456789ABCDEF".toList, isKeyChar c = true :=
    List.all_eq_true.1 (by decide)
  rcases h with h | h
  · exact hlower digit (List.mem_of_getElem? h)
  · exact hupper digit (List.mem_of_getElem? h)

theorem isKeyChar_of_names {digits : List Char} {c : Char} (h : Names digits c) :
    ∀ x ∈ digits, isKeyChar x = true := by
  obtain ⟨values, hd, -⟩ := h
  induction hd with
  | nil => simp
  | cons hdigit _ ih => exact List.forall_mem_cons.2 ⟨isKeyChar_of_hexDigit hdigit, ih⟩

theorem isKeyChar_of_escape {escape : List Char} {c : Char} (h : Escape escape c) :
    ∀ x ∈ escape, isKeyChar x = true := by
  cases h with
  | @letter l _ hm =>
    have hletters : ∀ entry ∈ escapeLetters, isKeyChar entry.1 = true := by decide
    intro x hx
    rw [List.mem_singleton.1 hx]
    exact hletters (l, c) hm
  | short _ hn => exact List.forall_mem_cons.2 ⟨by decide, isKeyChar_of_names hn⟩
  | long _ hn => exact List.forall_mem_cons.2 ⟨by decide, isKeyChar_of_names hn⟩

/-- Escaping makes no brace and no bar. -/
theorem isKeyChar_of_mem_escaped {c : Char} (h : isKeyChar c = true) :
    ∀ x ∈ escaped c, isKeyChar x = true := by
  rcases escaped_cases c with ⟨escape, he, hc⟩ | ⟨he, -⟩
  · rw [he]
    exact List.forall_mem_cons.2 ⟨by decide, isKeyChar_of_escape hc⟩
  · rw [he]
    exact List.forall_mem_singleton.2 h

/-- It takes none away either. -/
theorem escaped_of_not_isKeyChar {c : Char} (h : isKeyChar c = false) : escaped c = [c] := by
  rcases (isKeyChar_eq_false_iff c).1 h with rfl | rfl | rfl
  · rfl
  · rfl
  · rfl

theorem isKeyChar_of_flatMap_escaped {text : List Char} (h : ∀ c ∈ text, isKeyChar c = true) :
    ∀ x ∈ text.flatMap escaped, isKeyChar x = true := by
  intro x hx
  obtain ⟨c, hc, hx⟩ := List.mem_flatMap.1 hx
  exact isKeyChar_of_mem_escaped (h c hc) x hx

theorem isKeyChar_of_displaySegment {segment : String}
    (h : ∀ c ∈ segment.toList, isKeyChar c = true) :
    ∀ c ∈ displaySegment segment, isKeyChar c = true := by
  rw [displaySegment]
  split
  · exact h
  · intro c hc
    simp only [quoted, List.cons_append, List.mem_cons, List.mem_append, List.not_mem_nil,
      or_false] at hc
    rcases hc with rfl | hc | rfl
    · decide
    · exact isKeyChar_of_flatMap_escaped h c hc
    · decide

theorem isKeyChar_of_displaySegments {segments : List String}
    (h : ∀ segment ∈ segments, ∀ c ∈ segment.toList, isKeyChar c = true) :
    ∀ c ∈ displaySegments segments, isKeyChar c = true := by
  induction segments with
  | nil => simp [displaySegments]
  | cons first rest ih =>
    obtain ⟨hfirst, hrest⟩ := List.forall_mem_cons.1 h
    cases rest with
    | nil => exact isKeyChar_of_displaySegment hfirst
    | cons second rest =>
      rw [displaySegments_cons_cons]
      intro c hc
      simp only [List.mem_append, List.mem_cons] at hc
      rcases hc with hc | rfl | hc
      · exact isKeyChar_of_displaySegment hfirst c hc
      · decide
      · exact ih hrest c hc

/-! ## Where the key text ends -/

/-- A segment with a brace or a bar is quoted, and a key text that goes into it ends between the
quotes. -/
theorem takeWhile_displaySegment {segment : String} (h : ∃ c ∈ segment.toList, isKeyChar c = false)
    (rest : List Char) :
    ∃ front : List Char, (displaySegment segment ++ rest).takeWhile isKeyChar =
      '"' :: front.flatMap escaped := by
  have hbare : isBare segment.toList = false := by
    obtain ⟨c, hc, hn⟩ := h
    rw [← Bool.not_eq_true]
    intro hb
    rw [isKeyChar_of_bare hb c hc] at hn
    cases hn
  -- the first of these characters, and what stands in front of it
  obtain ⟨first, hfirst⟩ :=
    Option.isSome_iff_exists.1 (List.find?_isSome (p := fun c => !isKeyChar c).2 (by simpa using h))
  obtain ⟨hc, front, back, hs, hfront⟩ := List.find?_eq_some_iff_append.1 hfirst
  simp only [Bool.not_eq_true', Bool.not_eq_false'] at hc hfront
  refine ⟨front, ?_⟩
  have hdisplay : displaySegment segment ++ rest =
      ('"' :: front.flatMap escaped) ++ (first :: (back.flatMap escaped ++ '"' :: rest)) := by
    rw [displaySegment, hbare, hs]
    simp [quoted, escaped_of_not_isKeyChar hc]
  have hrun : ∀ x ∈ '"' :: front.flatMap escaped, isKeyChar x = true :=
    List.forall_mem_cons.2 ⟨by decide, isKeyChar_of_flatMap_escaped hfront⟩
  have hstop : ∀ x ∈ (first :: (back.flatMap escaped ++ '"' :: rest)).head?,
      isKeyChar x = false := by
    intro x hx
    cases hx
    exact hc
  rw [hdisplay]
  exact (span_run hrun hstop).1

/-- **A key text that ends inside quotes is no key.** -/
theorem keysFrom_takeWhile_displaySegments {segments : List String} (hne : "" ∉ segments)
    (h : ∃ segment ∈ segments, ∃ c ∈ segment.toList, isKeyChar c = false) (done : List Key)
    (path : List String) (rest : List Char) :
    keysFrom done path ((displaySegments segments ++ rest).takeWhile isKeyChar) =
      .error .unterminatedQuote := by
  induction segments generalizing path with
  | nil => simp at h
  | cons first more ih =>
    rw [List.mem_cons, not_or] at hne
    by_cases hfirst : ∃ c ∈ first.toList, isKeyChar c = false
    · have hcut :
          ∀ after, keysFrom done path ((displaySegment first ++ after).takeWhile isKeyChar) =
          .error .unterminatedQuote := by
        intro after
        obtain ⟨front, hfront⟩ := takeWhile_displaySegment hfirst after
        rw [hfront, keysFrom_open_quote]
      cases more with
      | nil => exact hcut rest
      | cons second more =>
        rw [displaySegments_cons_cons, List.append_assoc]
        exact hcut _
    · have hmore : ∃ segment ∈ more, ∃ c ∈ segment.toList, isKeyChar c = false := by
        obtain ⟨segment, hs, hc⟩ := h
        rcases List.mem_cons.1 hs with rfl | hs
        · exact absurd hc hfirst
        · exact ⟨segment, hs, hc⟩
      have hclean : ∀ c ∈ displaySegment first, isKeyChar c = true := by
        apply isKeyChar_of_displaySegment
        intro c hc
        rw [← Bool.not_eq_false]
        exact fun hn => hfirst ⟨c, hc, hn⟩
      cases more with
      | nil => simp at hmore
      | cons second more =>
        -- the key text takes the first segment and its dot, and goes on
        rw [displaySegments_cons_cons, List.append_assoc, List.takeWhile_append_of_pos hclean,
          List.cons_append, List.takeWhile_cons_of_pos (by decide),
          keysFrom_displaySegment_dot (Ne.symm hne.1)]
        exact ih hne.2 hmore _

/-! ## Between braces -/

/-- A template that begins with a brace begins with a placeholder that means something, and the key
text is all that it can be. -/
theorem exists_key_of_isTemplate {cs : List Char} (h : (scan ('\x7b' :: cs)).IsTemplate) :
    ∃ key, Key.parse (String.ofList (cs.takeWhile isKeyChar)) = .ok key := by
  by_cases hfront : NoneInFront ('\x7b' :: cs)
  · -- the brace is literal text, which has none
    rw [scan_literal hfront] at h
    have hbrace : ∀ cut : Scan, ¬ (cut.addLiteral '\x7b').IsTemplate := by
      rintro ⟨marked, tail⟩ hcut
      cases marked with
      | nil => exact (hcut.tail '\x7b' List.mem_cons_self).1 rfl
      | cons mark more => exact (hcut.literal _ List.mem_cons_self '\x7b' List.mem_cons_self).1 rfl
    exact absurd h (hbrace _)
  · simp only [NoneInFront, not_forall, not_not] at hfront
    obtain ⟨p, rest, hp, ht⟩ := hfront
    rw [ht, scan_placeholder hp] at h
    obtain ⟨⟨key, hk⟩, -⟩ := h.hasMeaning ([], p) List.mem_cons_self
    rw [p.text_append, List.cons.injEq] at ht
    refine ⟨key, ?_⟩
    rw [ht.2, (hp.span_key rest).1, String.ofList_toList, hk]

/-- The canonical form of a key between braces. -/
def braced (key : Key) : String := "\x7b" ++ key.display ++ "\x7d"

theorem toList_braced (key : Key) :
    (braced key).toList = '\x7b' :: (displaySegments key.segments ++ ['\x7d']) := by
  rw [braced, String.toList_append, String.toList_append, toList_display]
  rfl

/-- **A key with a brace or a bar in a segment makes no template.** -/
theorem not_isTemplate_braced {key : Key} (hk : key.Spellable)
    (h : ∃ segment ∈ key.segments, ∃ c ∈ segment.toList, isKeyChar c = false) :
    ¬ (scan (braced key).toList).IsTemplate := by
  intro ht
  rw [toList_braced] at ht
  obtain ⟨found, hf⟩ := exists_key_of_isTemplate ht
  rw [parse_eq_ok_iff, String.toList_ofList] at hf
  have hread := keysFrom_keySetText hf []
  rw [keysFrom_takeWhile_displaySegments hk.2 h] at hread
  cases hread

theorem wellFormed_display {key : Key} (hk : key.Spellable)
    (h : ∀ segment ∈ key.segments, ∀ c ∈ segment.toList, isKeyChar c = true) :
    Placeholder.WellFormed ⟨key.display, none⟩ := by
  have hchars : ∀ c ∈ key.display.toList, (c ≠ '\x7b' ∧ c ≠ '\x7d') ∧ c ≠ '|' := by
    intro c hc
    rw [toList_display] at hc
    exact (isKeyChar_iff c).1 (isKeyChar_of_displaySegments h c hc)
  refine ⟨?_, fun c hc => (hchars c hc).1, fun hbar => (hchars '|' hbar).2 rfl, by simp, by simp⟩
  intro (he : key.display = "")
  -- no key is read from an empty text
  have hread := (parse_eq_ok_iff _ key).1 (parse_display_of_spellable hk)
  rw [he] at hread
  obtain ⟨why, hwhy⟩ := keysFrom_gap [] (.inl String.toList_empty)
  rw [keysFrom_keySetText hread] at hwhy
  cases hwhy

/-- **Any other key makes the template of its one placeholder.** -/
theorem compile_braced {key : Key} (hk : key.Spellable)
    (h : ∀ segment ∈ key.segments, ∀ c ∈ segment.toList, isKeyChar c = true) :
    compile (braced key) = .ok ⟨[.placeholder key none]⟩ := by
  have hscan : scan (braced key).toList = ⟨[([], ⟨key.display, none⟩)], []⟩ := by
    have htext : (braced key).toList = Scan.text ⟨[([], ⟨key.display, none⟩)], []⟩ := by
      simp [toList_braced, Scan.text, Placeholder.text, Placeholder.formatText, toList_display]
    rw [htext]
    apply scan_text
    · exact List.forall_mem_singleton.2 ⟨by simp [BraceFree], wellFormed_display hk h⟩
    · simp [BraceFree]
  have hliteral : compileLiteral [] = .ok [] := rfl
  rw [compile_eq_ok_iff, hscan, compileMarked_cons_eq_ok_iff]
  exact ⟨[], _, [], hliteral, compilePlaceholder_plain (parse_display_of_spellable hk),
    hliteral, rfl⟩

/-- **A key can stand between braces as it is displayed, exactly if no segment has a brace or a
bar.** Then the template is the one placeholder of this key; otherwise the text is no template, and
neither another key nor a format is read from it. -/
theorem compile_display_iff {key : Key} (hk : key.segments ≠ [] ∧ "" ∉ key.segments) :
    (compile ("\x7b" ++ key.display ++ "\x7d") = .ok ⟨[.placeholder key none]⟩ ↔
        ∀ segment ∈ key.segments, ∀ c ∈ segment.toList, c ≠ '\x7b' ∧ c ≠ '\x7d' ∧ c ≠ '|') ∧
      ((∃ segment ∈ key.segments, ∃ c ∈ segment.toList, c = '\x7b' ∨ c = '\x7d' ∨ c = '|') →
        ∃ why, compile ("\x7b" ++ key.display ++ "\x7d") =
          .error (.malformedTemplate ("\x7b" ++ key.display ++ "\x7d") why)) := by
  have hbad : (∃ segment ∈ key.segments, ∃ c ∈ segment.toList, c = '\x7b' ∨ c = '\x7d' ∨ c = '|') →
      ∃ why, compile (braced key) = .error (.malformedTemplate (braced key) why) := by
    intro h
    rcases compile_ok_or_error (braced key) with hok | herror
    · simp only [← isKeyChar_eq_false_iff] at h
      exact absurd ((exists_compile_iff _).1 hok) (not_isTemplate_braced hk h)
    · exact herror
  refine ⟨⟨?_, ?_⟩, hbad⟩
  · intro hok segment hs c hc
    by_contra hn
    obtain ⟨why, hwhy⟩ := hbad ⟨segment, hs, c, hc, by tauto⟩
    rw [braced, hok] at hwhy
    cases hwhy
  · intro h
    apply compile_braced hk
    intro segment hs c hc
    obtain ⟨hopen, hclose, hbar⟩ := h segment hs c hc
    exact (isKeyChar_iff c).2 ⟨⟨hopen, hclose⟩, hbar⟩

/-- A segment that looks as if a format came after a bar, and one that only has to be quoted. -/
theorem compile_display_runs :
    ((["runs", "a|%d"] : List String) ≠ [] ∧ "" ∉ ["runs", "a|%d"]) ∧
      ((["run notes"] : List String) ≠ [] ∧ "" ∉ ["run notes"]) ∧
      (∃ why, compile "\x7bruns.\"a|%d\"\x7d" =
        .error (.malformedTemplate "\x7bruns.\"a|%d\"\x7d" why)) ∧
      compile "\x7b\"run notes\"\x7d" = .ok ⟨[.placeholder ⟨["run notes"]⟩ none]⟩ := by
  have hbar : (⟨["runs", "a|%d"]⟩ : Key).segments ≠ [] ∧
    "" ∉ (⟨["runs", "a|%d"]⟩ : Key).segments := by decide
  have hblank : (⟨["run notes"]⟩ : Key).segments ≠ [] ∧ "" ∉ (⟨["run notes"]⟩ : Key).segments := by
    decide
  have hdisplay : (⟨["runs", "a|%d"]⟩ : Key).display = "runs.\"a|%d\"" := by decide +kernel
  have hdisplay' : (⟨["run notes"]⟩ : Key).display = "\"run notes\"" := by decide +kernel
  refine ⟨hbar, hblank, ?_, ?_⟩
  · have hfault := (compile_display_iff hbar).2 ⟨"a|%d", by decide, '|', by decide, by decide⟩
    rw [hdisplay] at hfault
    exact hfault
  · have hok := (compile_display_iff hblank).1.2 (by simp)
    rw [hdisplay'] at hok
    exact hok

end Template

end Sweep
