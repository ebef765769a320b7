import Sweep.Proofs.Key.Scanning

/-!
# Reading agrees with the grammar

A text is read as a list of keys exactly if the grammar has it for that list; every other text makes
the fault that names the whole text. Reading goes through the tokens with two expectations, a
segment, then a separator or the end; a key in the grammar is the same alternation, so each
direction is one induction: over the tokens for soundness, over the derivation for completeness.
-/

set_option autoImplicit false

namespace Sweep.Key

/-! ## Soundness -/

/-- **Tokens that complete keys are all there are**, and a text they spell is in the grammar. Of the
first key, the segments in `path` were read before. -/
theorem keySetText_of_keysOfTokens {fault : Option Malformation} {done keys : List Key}
    {path : List String} {ts : List Token} (h : keysOfTokens fault done path ts = .ok keys) :
    fault = none ∧ ∀ cs, Spells cs ts →
      ∃ segments more, keys = done ++ ⟨path ++ segments⟩ :: more ∧
        KeySetText cs (⟨segments⟩ :: more) := by
  fun_induction keysOfTokens fault done path ts with
  | case1 => exact absurd h (by simp)
  | case2 => exact absurd h (by simp)
  | case3 => exact absurd h (by simp)
  | case4 done path segment hf =>
    -- a segment and the end
    cases h
    refine ⟨hf, fun cs hs => ⟨[segment], [], rfl, ?_⟩⟩
    obtain ⟨before, source, after, rfl, hb, hseg, hrest⟩ := hs.of_segment
    cases hrest with
    | nil ha => exact .last (.last hb hseg ha)
  | case5 done path segment rest ih =>
    -- a segment and a dot: the first key of the rest gets one more segment
    obtain ⟨hf, hall⟩ := ih h
    refine ⟨hf, fun cs hs => ?_⟩
    obtain ⟨before, source, after, _, rfl, hb, hseg, ha, hrest⟩ :=
      hs.of_segment_separator (c := '.') fun ht => by cases ht; rfl
    obtain ⟨segments, more, rfl, hk⟩ := hall _ hrest
    refine ⟨segment :: segments, more, ?_, hk.cons_segment hb hseg ha⟩
    rw [List.append_assoc, List.singleton_append]
  | case6 done path segment rest ih =>
    -- a segment and a comma: the key is finished
    obtain ⟨hf, hall⟩ := ih h
    refine ⟨hf, fun cs hs => ?_⟩
    obtain ⟨before, source, after, _, rfl, hb, hseg, ha, hrest⟩ :=
      hs.of_segment_separator (c := ',') fun ht => by cases ht; rfl
    obtain ⟨segments, more, rfl, hk⟩ := hall _ hrest
    refine ⟨[segment], ⟨segments⟩ :: more, ?_, .cons (.last hb hseg ha) hk⟩
    rw [List.append_assoc]
    rfl
  | case7 => exact absurd h (by simp)
  | case8 => exact absurd h (by simp)

/-! ## Completeness -/

/-- The keys that a text completes, where a segment must come next: `done` holds the finished keys
and `path` the segments of the current one. -/
def keysFrom (done : List Key) (path : List String) (cs : List Char) :
    Except Malformation (List Key) :=
  keysOfTokens (tokens cs).2 done path (tokens cs).1

section KeysFrom

variable {before source after rest : List Char} {segment : String}

theorem Blank.ends (h : Blank after) : Ends after := by
  rw [← List.append_nil after]
  exact h.ends_append (by simp [Ends])

theorem keysFrom_last (hb : Blank before) (hs : SegmentText source segment) (ha : Blank after)
    (done : List Key) (path : List String) :
    keysFrom done path (before ++ source ++ after) = .ok (done ++ [⟨path ++ [segment]⟩]) := by
  rw [keysFrom, tokens_segment hb hs ha.ends, tokens_blank ha]
  rfl

theorem tokens_segment_separator {separator : Char} {token : Token} (hb : Blank before)
    (hs : SegmentText source segment) (ha : Blank after) (hsep : isIdentifierPart separator = false)
    (hblank : Text.isBlank separator = false) (ht : readToken separator rest = .ok (token, rest)) :
    tokens (before ++ source ++ after ++ separator :: rest) =
      (.segment segment :: token :: (tokens rest).1, (tokens rest).2) := by
  have he : Ends (after ++ separator :: rest) := ha.ends_append fun c hc => by
    cases hc
    exact hsep
  rw [List.append_assoc _ after, tokens_segment hb hs he, tokens_cons ha hblank ht]

theorem keysFrom_dot (hb : Blank before) (hs : SegmentText source segment) (ha : Blank after)
    (done : List Key) (path : List String) :
    keysFrom done path (before ++ source ++ after ++ '.' :: rest) =
      keysFrom done (path ++ [segment]) rest := by
  rw [keysFrom, tokens_segment_separator hb hs ha (by decide +kernel) (by decide)
    (by rw [readToken, if_pos rfl]), keysOfTokens, keysFrom]

theorem keysFrom_comma (hb : Blank before) (hs : SegmentText source segment) (ha : Blank after)
    (done : List Key) (path : List String) :
    keysFrom done path (before ++ source ++ after ++ ',' :: rest) =
      keysFrom (done ++ [⟨path ++ [segment]⟩]) [] rest := by
  rw [keysFrom, tokens_segment_separator hb hs ha (by decide +kernel) (by decide)
    (by rw [readToken, if_neg (by decide), if_pos rfl]), keysOfTokens, keysFrom]

end KeysFrom

theorem keysFrom_keyText {source : List Char} {segments : List String} (h : KeyText source segments)
    (done : List Key) (path : List String) :
    keysFrom done path source = .ok (done ++ [⟨path ++ segments⟩]) := by
  induction h generalizing path with
  | last hb hs ha => exact keysFrom_last hb hs ha done path
  | @cons _ _ _ _ segment segments hb hs ha _ ih =>
    rw [keysFrom_dot hb hs ha, ih, List.append_assoc, List.singleton_append]

theorem keysFrom_keyText_comma {source : List Char} {segments : List String}
    (h : KeyText source segments) (rest : List Char) (done : List Key) (path : List String) :
    keysFrom done path (source ++ ',' :: rest) =
      keysFrom (done ++ [⟨path ++ segments⟩]) [] rest := by
  induction h generalizing path with
  | last hb hs ha => exact keysFrom_comma hb hs ha done path
  | @cons _ _ _ _ segment segments hb hs ha _ ih =>
    rw [List.append_assoc, List.cons_append, keysFrom_dot hb hs ha, ih, List.append_assoc,
      List.singleton_append]

theorem keysFrom_keySetText {cs : List Char} {keys : List Key} (h : KeySetText cs keys)
    (done : List Key) :
    keysFrom done [] cs = .ok (done ++ keys) := by
  induction h generalizing done with
  | last hk => exact keysFrom_keyText hk done []
  | cons hk _ ih =>
    rw [keysFrom_keyText_comma hk, ih, List.nil_append, List.append_assoc, List.singleton_append]

/-! ## Reading -/

theorem readSet_eq_ok_iff (text : String) (keys : List Key) :
    readSet text = .ok keys ↔ KeySetText text.toList keys := by
  constructor
  · intro h
    obtain ⟨hf, hall⟩ := keySetText_of_keysOfTokens h
    obtain ⟨segments, more, rfl, hk⟩ := hall _ (spells_tokens _ hf)
    exact hk
  · exact fun h => keysFrom_keySetText h []

example : readSet " run . \"best of\" ,0" = .ok [⟨["run", "best of"]⟩, ⟨["0"]⟩] := by decide +kernel

/-- There is one way only to cut a text into keys. -/
theorem KeySetText.unique {text : String} {keys others : List Key} (h : KeySetText text.toList keys)
    (ho : KeySetText text.toList others) : keys = others := by
  have hr := (readSet_eq_ok_iff text keys).2 h
  rw [(readSet_eq_ok_iff text others).2 ho] at hr
  exact (Except.ok.inj hr).symm

theorem read_eq_ok_iff (text : String) (key : Key) :
    read text = .ok key ↔ readSet text = .ok [key] := by
  rw [read]
  constructor
  · intro h
    split at h
    · exact absurd h (by simp)
    · rename_i hs
      cases h
      exact hs
    · exact absurd h (by simp)
    · exact absurd h (by simp)
  · intro h
    rw [h]

theorem parse_eq_ok_iff (text : String) (key : Key) :
    parse text = .ok key ↔ KeySetText text.toList [key] := by
  rw [parse, Except.mapError_eq_ok_iff, read_eq_ok_iff, readSet_eq_ok_iff]

/-- **Reading accepts the texts of the grammar and no other**, with the keys that the grammar has
for them; whatever is not accepted makes a fault that carries the whole text. -/
theorem parse_iff_grammar (text : String) :
    (∀ keys, parseSet text = .ok keys ↔ KeySetText text.toList keys) ∧
      (∀ key, parse text = .ok key ↔ KeySetText text.toList [key]) ∧
      ((∃ keys, KeySetText text.toList keys) ∨
        ∃ why, parseSet text = .error (.malformedKey text why)) ∧
      ((∃ key, KeySetText text.toList [key]) ∨
        ∃ why, parse text = .error (.malformedKey text why)) := by
  refine ⟨fun keys => ?_, parse_eq_ok_iff text, ?_, ?_⟩
  · rw [parseSet, Except.mapError_eq_ok_iff, readSet_eq_ok_iff]
  · cases hr : readSet text with
    | ok keys => exact .inl ⟨keys, (readSet_eq_ok_iff text keys).1 hr⟩
    | error why =>
      right
      exact ⟨why, by rw [parseSet, hr]; rfl⟩
  · cases hr : read text with
    | ok key => exact .inl ⟨key, (readSet_eq_ok_iff text [key]).1 ((read_eq_ok_iff text key).1 hr)⟩
    | error why =>
      right
      exact ⟨why, by rw [parse, hr]; rfl⟩

end Sweep.Key
