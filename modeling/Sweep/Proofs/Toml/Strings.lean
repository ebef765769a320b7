import Sweep.Proofs.Text.Decimal
import Sweep.Toml.Printer
import Sweep.Toml.Reader

/-!
# Strings and names of TOML, read back

Four forms of strings, and whichever one suits the characters best is read back as these characters.
Between double quotes a character either stands for itself or is escaped (`escapedChar_cases`), so
the two forms with double quotes read back everything. The two with single quotes escape nothing and
are chosen only for characters that need it in no way.

In the forms of three quotes a text may end with quotes of its own, and the reader takes the first
three of them for the closing ones and gives the others back to the text. So a run of quotes is read
all at once or not at all, which is why the inductions below carry the run in front that is not read
yet.
-/

set_option autoImplicit false

namespace Sweep.Toml

/-! ## Characters -/

theorem isLineChar_of_not_hardControl {c : Char} (h : isHardControl c = false) :
    isLineChar c = true := by
  rw [isHardControl, Bool.or_eq_false_iff, Bool.and_eq_false_iff, decide_eq_false_iff_not,
    decide_eq_false_iff_not, bne_eq_false_iff_eq] at h
  rw [isLineChar, Bool.or_eq_true, Bool.and_eq_true, beq_iff_eq, decide_eq_true_eq,
    decide_eq_true_eq]
  rcases h.1 with hlow | htab
  · exact .inr ⟨Nat.le_of_not_lt hlow, h.2⟩
  · exact .inl htab

/-- What is written for a character between double quotes that is none itself. -/
def escapedChar (breaks : Bool) (c : Char) : List Char :=
  if c = '\x08' then ['\\', 'b']
  else if c = '\t' then ['\\', 't']
  else if c = '\x0c' then ['\\', 'f']
  else if c = '\r' then ['\\', 'r']
  else if c = '\\' then ['\\', '\\']
  else if c = '\n' then (if breaks then [c] else ['\\', 'n'])
  else if isHardControl c then '\\' :: 'u' :: (Text.hex 4 c.toNat).map Char.toUpper
  else [c]

theorem escapeFrom_cons {c : Char} (h : c ≠ '"') (breaks : Bool) (allowed run : Nat)
    (cs : List Char) :
    escapeFrom breaks allowed run (c :: cs) =
      escapedChar breaks c ++ escapeFrom breaks allowed 0 cs := by
  rw [escapeFrom, if_neg h, escapedChar]
  split_ifs <;> rfl

theorem readEscape_control {c : Char} (h : c.toNat < 0x80) (rest : List Char) :
    readEscape ('u' :: (Text.hex 4 c.toNat).map Char.toUpper ++ rest) = some (c, rest) := by
  have hs : Text.scalar? c.toNat = some c := (Text.scalar?_eq_some_iff c.toNat c).2 rfl
  rw [List.cons_append, readEscape, if_pos rfl, Text.readHexChar,
    Text.readHex_hex_toUpper (Text.length_hex_control h)]
  simp only [hs, Option.map_some]

/-- An escape: a mark that no break of a line can be taken for, and what the reader needs to give
the character. -/
def EscapeOf (c : Char) (source : List Char) : Prop :=
  ∃ mark tail, source = '\\' :: mark :: tail ∧
    (∀ rest, readEscape (mark :: tail ++ rest) = some (c, rest)) ∧ isSpace mark = false ∧
    mark ≠ '\n' ∧ mark ≠ '\r'

theorem escapeOf_letter {c letter : Char} (h : letterEscape? letter = some c) (hu : letter ≠ 'u')
    (hU : letter ≠ 'U') (hspace : isSpace letter = false) (hbreak : letter ≠ '\n')
    (hreturn : letter ≠ '\r') :
    EscapeOf c ['\\', letter] := by
  refine ⟨letter, [], rfl, fun rest => ?_, hspace, hbreak, hreturn⟩
  rw [List.singleton_append, readEscape, if_neg hu, if_neg hU, h]
  rfl

/-- **A character between double quotes** is escaped, or it may stand for itself. -/
theorem escapedChar_cases (breaks : Bool) (c : Char) :
    EscapeOf c (escapedChar breaks c) ∨
      (escapedChar breaks c = [c] ∧ c ≠ '\\' ∧ c ≠ '\r' ∧
        (isLineChar c = true ∨ breaks = true ∧ c = '\n')) := by
  rw [escapedChar]
  by_cases hb : c = '\x08'
  · rw [if_pos hb, hb]
    exact .inl (escapeOf_letter rfl (by decide) (by decide) rfl (by decide) (by decide))
  rw [if_neg hb]
  by_cases ht : c = '\t'
  · rw [if_pos ht, ht]
    exact .inl (escapeOf_letter rfl (by decide) (by decide) rfl (by decide) (by decide))
  rw [if_neg ht]
  by_cases hf : c = '\x0c'
  · rw [if_pos hf, hf]
    exact .inl (escapeOf_letter rfl (by decide) (by decide) rfl (by decide) (by decide))
  rw [if_neg hf]
  by_cases hr : c = '\r'
  · rw [if_pos hr, hr]
    exact .inl (escapeOf_letter rfl (by decide) (by decide) rfl (by decide) (by decide))
  rw [if_neg hr]
  by_cases hs : c = '\\'
  · rw [if_pos hs, hs]
    exact .inl (escapeOf_letter rfl (by decide) (by decide) rfl (by decide) (by decide))
  rw [if_neg hs]
  by_cases hn : c = '\n'
  · rw [if_pos hn]
    cases breaks with
    | true => exact .inr ⟨rfl, hs, hr, .inr ⟨rfl, hn⟩⟩
    | false =>
      rw [hn]
      exact .inl (escapeOf_letter rfl (by decide) (by decide) rfl (by decide) (by decide))
  rw [if_neg hn]
  by_cases hc : isHardControl c = true
  · have hlow : c.toNat < 0x80 := by
      rw [isHardControl, Bool.or_eq_true, Bool.and_eq_true, decide_eq_true_eq,
        decide_eq_true_eq] at hc
      omega
    rw [if_pos hc]
    exact .inl ⟨'u', _, rfl, readEscape_control hlow, rfl, by decide, by decide⟩
  · rw [if_neg hc]
    exact .inr ⟨rfl, hs, hr, .inl (isLineChar_of_not_hardControl (Bool.eq_false_iff.2 hc))⟩

theorem escapeOf_quote : EscapeOf '"' ['\\', '"'] :=
  escapeOf_letter rfl (by decide) (by decide) rfl (by decide) (by decide)

/-! ## One line -/

theorem readBasic_escapeOf {c : Char} {source : List Char} (h : EscapeOf c source)
    (rest : List Char) :
    readBasic (source ++ rest) = (readBasic rest).map fun (text, after) => (c :: text, after) := by
  obtain ⟨mark, tail, rfl, hread, -⟩ := h
  rw [List.cons_append, readBasic]
  split
  · next hn =>
    rw [hread rest] at hn
    exact absurd hn (by simp)
  · next hs =>
    rw [hread rest] at hs
    cases hs
    rfl

theorem readBasic_raw {c : Char} (hquote : c ≠ '"') (hslash : c ≠ '\\')
    (hline : isLineChar c = true) (rest : List Char) :
    readBasic (c :: rest) = (readBasic rest).map fun (text, after) => (c :: text, after) := by
  rw [readBasic, if_pos hline] <;> assumption

/-- **A string in double quotes is read back**, whatever comes after it. -/
theorem readBasic_escapeLine (cs rest : List Char) :
    readBasic (escapeLine cs ++ '"' :: rest) = some (cs, rest) := by
  rw [escapeLine]
  induction cs with
  | nil => rw [escapeFrom, List.nil_append, readBasic]
  | cons c cs ih =>
    by_cases hquote : c = '"'
    · have hsplit : escapeFrom false 0 0 (c :: cs) = ['\\', '"'] ++ escapeFrom false 0 0 cs := by
        rw [escapeFrom, if_pos hquote, if_neg (Nat.lt_irrefl 0)]
        rfl
      rw [hsplit, List.append_assoc, readBasic_escapeOf escapeOf_quote, ih, hquote]
      rfl
    rw [escapeFrom_cons hquote, List.append_assoc]
    rcases escapedChar_cases false c with he | ⟨he, hslash, -, hline⟩
    · rw [readBasic_escapeOf he, ih]
      rfl
    · have hl : isLineChar c = true := hline.resolve_right fun hb => absurd hb.1 Bool.false_ne_true
      rw [he, List.singleton_append, readBasic_raw hquote hslash hl, ih]
      rfl

/-- **A string in single quotes is read back** if it holds none, nor any control but the tab. -/
theorem readLiteral_text {cs : List Char} (hquote : '\'' ∉ cs)
    (hline : ∀ c ∈ cs, isLineChar c = true) (rest : List Char) :
    readLiteral (cs ++ '\'' :: rest) = some (cs, rest) := by
  induction cs with
  | nil => rw [List.nil_append, readLiteral]
  | cons c cs ih =>
    rw [List.mem_cons, not_or] at hquote
    obtain ⟨hc, hcs⟩ := List.forall_mem_cons.1 hline
    rw [List.cons_append, readLiteral, if_pos hc, ih hquote.2 hcs]
    · rfl
    · exact fun he => hquote.1 he.symm

/-! ## Several lines -/

/-- Text that three closing quotes end in front of. -/
def NoQuote (q : Char) (rest : List Char) : Prop := ∀ c ∈ rest.head?, c ≠ q

theorem closingQuotes_replicate {q : Char} {run : Nat} (hr : run ≤ 2) {rest : List Char}
    (h : NoQuote q rest) :
    closingQuotes q (List.replicate run q ++ rest) = (List.replicate run q, rest) := by
  have hnone : ∀ c ∈ rest.head?, c ≠ q := h
  match run with
  | 0 =>
    match rest with
    | [] => rfl
    | [a] => simp [closingQuotes, hnone a rfl]
    | a :: b :: more => simp [closingQuotes, hnone a rfl]
  | 1 =>
    match rest with
    | [] => simp [closingQuotes]
    | a :: more => simp [closingQuotes, hnone a rfl]
  | 2 => simp [closingQuotes]
  | run + 3 => omega

theorem readBasicLines_raw {c : Char} {rest : List Char}
    (htriple : ∀ tail, c :: rest ≠ '"' :: '"' :: '"' :: tail) (hslash : c ≠ '\\')
    (hreturn : c ≠ '\r') (hline : (isLineChar c || c == '\n') = true) :
    readBasicLines (c :: rest) = (readBasicLines rest).map fun (text, after) =>
      (c :: text, after) := by
  rw [readBasicLines, if_pos hline]
  · rintro tail rfl rfl
    exact htriple tail rfl
  · exact hslash
  · rintro tail rfl -
    exact hreturn rfl

theorem afterHiddenBreak?_of_mark {mark : Char} (hspace : isSpace mark = false)
    (hbreak : mark ≠ '\n') (hreturn : mark ≠ '\r') (rest : List Char) :
    afterHiddenBreak? (mark :: rest) = none := by
  rw [afterHiddenBreak?, skipSpace,
    List.dropWhile_cons_of_neg (by rw [hspace]; exact Bool.false_ne_true)]
  have hnone : afterBreak? (mark :: rest) = none := by
    rw [afterBreak?.eq_def]
    split
    · next he => cases he; exact absurd rfl hbreak
    · next he => cases he; exact absurd rfl hreturn
    · rfl
  rw [hnone]
  rfl

theorem readBasicLines_escapeOf {c : Char} {source : List Char} (h : EscapeOf c source)
    (rest : List Char) :
    readBasicLines (source ++ rest) = (readBasicLines rest).map fun (text, after) =>
      (c :: text, after) := by
  obtain ⟨mark, tail, rfl, hread, hspace, hbreak, hreturn⟩ := h
  rw [List.cons_append, readBasicLines]
  split
  · next hs =>
    rw [List.cons_append, afterHiddenBreak?_of_mark hspace hbreak hreturn] at hs
    exact absurd hs (by simp)
  · split
    · next hn =>
      rw [hread rest] at hn
      exact absurd hn (by simp)
    · next hs =>
      rw [hread rest] at hs
      cases hs
      rfl

/-- Up to two quotes in front of another character belong to the text, to a reader that only stops
at three. -/
theorem read_quotes {read : List Char → Option (List Char × List Char)} {q : Char}
    (hone : ∀ cs, (∀ tail, cs ≠ q :: q :: tail) →
      read (q :: cs) = (read cs).map fun (text, after) => (q :: text, after))
    {run : Nat} (hr : run ≤ 2) {x : Char} (hx : x ≠ q) (rest : List Char) :
    read (List.replicate run q ++ x :: rest) =
      (read (x :: rest)).map fun (text, after) => (List.replicate run q ++ text, after) := by
  match run with
  | 0 => simp
  | 1 =>
    rw [List.replicate_one, List.singleton_append, hone _ (fun tail he => hx (List.cons.inj he).1)]
    rfl
  | 2 =>
    have hfirst : ∀ tail, q :: x :: rest ≠ q :: q :: tail :=
      fun tail he => hx (List.cons.inj (List.cons.inj he).2).1
    show read (q :: q :: x :: rest) = _
    rw [hone _ hfirst, hone _ (fun tail he => hx (List.cons.inj he).1), Option.map_map]
    rfl
  | run + 3 => omega

theorem readBasicLines_run {run : Nat} (hr : run ≤ 2) {x : Char} (hx : x ≠ '"') (rest : List Char) :
    readBasicLines (List.replicate run '"' ++ x :: rest) =
      (readBasicLines (x :: rest)).map fun (text, after) =>
        (List.replicate run '"' ++ text, after) := by
  refine read_quotes (fun cs hcs => ?_) hr hx rest
  exact readBasicLines_raw (fun tail he => hcs tail (List.cons.inj he).2) (by decide)
    (by decide) (by decide)

/-- **A string in three double quotes is read back**, with `run` quotes in front that are not read
yet. -/
theorem readBasicLines_escapeFrom (cs : List Char) {run : Nat} (hr : run ≤ 2) {rest : List Char}
    (h : NoQuote '"' rest) :
    readBasicLines (List.replicate run '"' ++
      (escapeFrom true 2 run cs ++ '"' :: '"' :: '"' :: rest)) =
      some (List.replicate run '"' ++ cs, rest) := by
  induction cs generalizing run with
  | nil =>
    have hclose : List.replicate run '"' ++ '"' :: '"' :: '"' :: rest =
        '"' :: '"' :: '"' :: (List.replicate run '"' ++ rest) := by
      match run with
      | 0 | 1 | 2 => rfl
      | run + 3 => omega
    rw [escapeFrom, List.nil_append, hclose, readBasicLines, closingQuotes_replicate hr h,
      List.append_nil]
  | cons c cs ih =>
    by_cases hquote : c = '"'
    · rw [escapeFrom, if_pos hquote, hquote]
      by_cases hlt : run < 2
      -- one quote more waits for what comes after it; a third one in a row is written escaped
      · have hih := @ih (run + 1) hlt
        rw [List.replicate_succ', List.append_assoc, List.append_assoc, List.singleton_append,
          List.singleton_append] at hih
        rw [if_pos hlt, List.cons_append]
        exact hih
      · have hih := @ih 0 (Nat.zero_le 2)
        rw [if_neg hlt, List.cons_append, readBasicLines_run hr (by decide)]
        have hescape := readBasicLines_escapeOf escapeOf_quote
          (escapeFrom true 2 0 cs ++ '"' :: '"' :: '"' :: rest)
        rw [List.replicate_zero, List.nil_append, List.nil_append] at hih
        rw [hih] at hescape
        simp only [List.cons_append, List.nil_append] at hescape ⊢
        rw [hescape]
        rfl
    have hih := @ih 0 (Nat.zero_le 2)
    rw [List.replicate_zero, List.nil_append, List.nil_append] at hih
    rw [escapeFrom_cons hquote, List.append_assoc]
    rcases escapedChar_cases true c with he | ⟨he, hslash, hreturn, hline⟩
    · have hescape :=
        readBasicLines_escapeOf he (escapeFrom true 2 0 cs ++ '"' :: '"' :: '"' :: rest)
      obtain ⟨mark, tail, hs, -⟩ := he
      rw [hs, List.cons_append] at hescape ⊢
      rw [readBasicLines_run hr (by decide), hescape, hih]
      rfl
    · rw [he, List.singleton_append, readBasicLines_run hr hquote,
        readBasicLines_raw (fun tail ht => hquote (List.cons.inj ht).1) hslash hreturn, hih]
      · rfl
      · rcases hline with hl | ⟨-, rfl⟩
        · rw [hl, Bool.true_or]
        · decide

theorem readLiteralLines_raw {c : Char} {rest : List Char}
    (htriple : ∀ tail, c :: rest ≠ '\'' :: '\'' :: '\'' :: tail) (hreturn : c ≠ '\r')
    (hline : (isLineChar c || c == '\n') = true) :
    readLiteralLines (c :: rest) = (readLiteralLines rest).map fun (text, after) =>
      (c :: text, after) := by
  rw [readLiteralLines, if_pos hline]
  · rintro tail rfl rfl
    exact htriple tail rfl
  · rintro tail rfl -
    exact hreturn rfl

theorem readLiteralLines_run {run : Nat} (hr : run ≤ 2) {x : Char} (hx : x ≠ '\'')
    (rest : List Char) :
    readLiteralLines (List.replicate run '\'' ++ x :: rest) =
      (readLiteralLines (x :: rest)).map fun (text, after) =>
        (List.replicate run '\'' ++ text, after) := by
  refine read_quotes (fun cs hcs => ?_) hr hx rest
  exact readLiteralLines_raw (fun tail he => hcs tail (List.cons.inj he).2) (by decide) (by decide)

theorem le_longestRunFrom (q : Char) (run longest : Nat) (cs : List Char) :
    longest ≤ longestRunFrom q run longest cs := by
  induction cs generalizing run longest with
  | nil => exact Nat.le_refl _
  | cons c rest ih =>
    rw [longestRunFrom]
    split
    · exact Nat.le_trans (Nat.le_max_left _ _) (ih _ _)
    · exact ih _ _

/-- A character that a text of several lines can hold as it is. -/
def LinesChar (c : Char) : Prop := isHardControl c = false ∨ c = '\n'

theorem LinesChar.line {c : Char} (h : LinesChar c) : (isLineChar c || c == '\n') = true := by
  rcases h with h | rfl
  · rw [isLineChar_of_not_hardControl h, Bool.true_or]
  · decide

theorem LinesChar.ne_return {c : Char} (h : LinesChar c) : c ≠ '\r' := by
  rintro rfl
  rcases h with h | h
  · exact absurd h (by decide)
  · exact absurd h (by decide)

/-- **A string in three single quotes is read back** if no three of them stand in a row in it, again
with `run` quotes in front that are not read yet. -/
theorem readLiteralLines_text {cs : List Char} (hc : ∀ c ∈ cs, LinesChar c) {run longest : Nat}
    (hr : run ≤ 2) (hruns : longestRunFrom '\'' run longest cs < 3) {rest : List Char}
    (h : NoQuote '\'' rest) :
    readLiteralLines (List.replicate run '\'' ++ (cs ++ '\'' :: '\'' :: '\'' :: rest)) =
      some (List.replicate run '\'' ++ cs, rest) := by
  induction cs generalizing run longest with
  | nil =>
    have hclose : List.replicate run '\'' ++ '\'' :: '\'' :: '\'' :: rest =
        '\'' :: '\'' :: '\'' :: (List.replicate run '\'' ++ rest) := by
      match run with
      | 0 | 1 | 2 => rfl
      | run + 3 => omega
    rw [List.nil_append, hclose, readLiteralLines, closingQuotes_replicate hr h, List.append_nil]
  | cons c cs ih =>
    obtain ⟨hfirst, hcs⟩ := List.forall_mem_cons.1 hc
    rw [longestRunFrom] at hruns
    by_cases hquote : c = '\''
    · rw [if_pos hquote] at hruns
      have hlt : run + 1 < 3 :=
        Nat.lt_of_le_of_lt (Nat.le_trans (Nat.le_max_right _ _) (le_longestRunFrom _ _ _ _)) hruns
      have hih := @ih hcs (run + 1) _ (Nat.le_of_lt_succ hlt) hruns
      rw [List.replicate_succ', List.append_assoc, List.append_assoc, List.singleton_append,
        List.singleton_append] at hih
      rw [hquote, List.cons_append]
      exact hih
    · rw [if_neg hquote] at hruns
      have hih := @ih hcs 0 _ (Nat.zero_le 2) hruns
      rw [List.replicate_zero, List.nil_append, List.nil_append] at hih
      rw [List.cons_append, readLiteralLines_run hr hquote,
        readLiteralLines_raw (fun tail ht => hquote (List.cons.inj ht).1)
          hfirst.ne_return hfirst.line, hih]
      rfl

/-- The break after the opening quotes is there for a text that has one, and a text that has none
begins with none. -/
theorem afterFirstBreak_leadingBreak (cs : List Char) {body : List Char}
    (h : '\n' ∉ cs → ∀ c ∈ body.head?, c ≠ '\n' ∧ c ≠ '\r') :
    afterFirstBreak (leadingBreak cs ++ body) = body := by
  rw [leadingBreak]
  by_cases hn : '\n' ∈ cs
  · rw [if_pos (List.contains_iff_mem.2 hn)]
    rfl
  · rw [if_neg (fun hc => hn (List.contains_iff_mem.1 hc)), List.nil_append, afterFirstBreak]
    have hnone : afterBreak? body = none := by
      rw [afterBreak?.eq_def]
      split
      · exact absurd rfl (h hn _ rfl).1
      · exact absurd rfl (h hn _ rfl).2
      · rfl
    rw [hnone]
    rfl

/-! ## The four forms -/

theorem choose_literal {cs : List Char} (h : QuoteForm.choose cs = .literal) :
    cs ≠ [] ∧ (∀ c ∈ cs, isHardControl c = false) ∧ longestRun '\'' cs = 0 := by
  rw [QuoteForm.choose] at h
  split_ifs at h with hbasic hliteral
  simp only [Bool.and_eq_true, Bool.not_eq_true', decide_eq_true_eq, List.any_eq_false,
    List.contains_eq_mem, decide_eq_false_iff_not, bne_iff_ne, not_and_or, not_not,
    Bool.not_eq_true] at hliteral
  refine ⟨?_, fun c hc => (hliteral.1.1 c hc).resolve_right fun he =>
    hliteral.1.2 (he ▸ hc), hliteral.2⟩
  rintro rfl
  exact hbasic (by decide)

theorem choose_literalLines {cs : List Char} (h : QuoteForm.choose cs = .literalLines) :
    (∀ c ∈ cs, LinesChar c) ∧ longestRun '\'' cs < 3 := by
  rw [QuoteForm.choose] at h
  split_ifs at h with hbasic hliteral hlines hliteralLines
  simp only [Bool.and_eq_true, Bool.not_eq_true', decide_eq_true_eq, List.any_eq_false, bne_iff_ne,
    not_and_or, not_not, Bool.not_eq_true] at hliteralLines
  exact hliteralLines

theorem notMem_of_longestRunFrom {q : Char} {run : Nat} {cs : List Char}
    (h : longestRunFrom q run 0 cs = 0) : q ∉ cs := by
  induction cs generalizing run with
  | nil => exact List.not_mem_nil
  | cons c rest ih =>
    rw [longestRunFrom] at h
    split at h
    · have hle := le_longestRunFrom q (run + 1) (max 0 (run + 1)) rest
      omega
    · next hne =>
      rw [List.mem_cons, not_or]
      exact ⟨Ne.symm hne, ih h⟩

theorem notMem_of_longestRun {q : Char} {cs : List Char} (h : longestRun q cs = 0) : q ∉ cs :=
  notMem_of_longestRunFrom h

/-- What is written for characters begins with a backslash or with the first of them. -/
theorem head_escapeFrom (breaks : Bool) (allowed : Nat) (c : Char) (cs : List Char) :
    ∃ first tail, escapeFrom breaks allowed 0 (c :: cs) = first :: tail ∧
      (first = '\\' ∨ first = c ∧ c ≠ '\r' ∧ (c = '"' → 0 < allowed)) := by
  by_cases hquote : c = '"'
  · rw [escapeFrom, if_pos hquote]
    by_cases hlt : 0 < allowed
    · rw [if_pos hlt]
      exact ⟨c, _, rfl, .inr ⟨rfl, by rw [hquote]; decide, fun _ => hlt⟩⟩
    · rw [if_neg hlt]
      exact ⟨'\\', _, rfl, .inl rfl⟩
  · rw [escapeFrom_cons hquote]
    rcases escapedChar_cases breaks c with ⟨mark, tail, he, -⟩ | ⟨he, -, hreturn, -⟩ <;> rw [he]
    · exact ⟨'\\', _, rfl, .inl rfl⟩
    · exact ⟨c, _, rfl, .inr ⟨rfl, hreturn, fun h => absurd h hquote⟩⟩

/-- Two quotes at once would be an empty string, which is written so in front of no quote. -/
theorem readString_basic (cs : List Char) {rest : List Char} (h : NoQuote '"' rest) :
    readString ('"' :: (escapeLine cs ++ '"' :: rest)) = some (String.ofList cs, rest) := by
  rw [readString, readBasic_escapeLine cs rest]
  · rfl
  · intro tail he
    cases cs with
    | nil =>
      rw [escapeLine, escapeFrom, List.nil_append] at he
      exact h '"' (by rw [(List.cons.inj he).2]; rfl) rfl
    | cons c cs =>
      obtain ⟨first, more, hf, hcase⟩ := head_escapeFrom false 0 c cs
      rw [escapeLine, hf, List.cons_append] at he
      have hquote : first = '"' := (List.cons.inj he).1
      rcases hcase with hslash | ⟨hc, -, hallowed⟩
      · rw [hquote] at hslash
        exact absurd hslash (by decide)
      · exact absurd (hallowed (hc.symm.trans hquote)) (Nat.lt_irrefl 0)

theorem readString_literal {cs : List Char} (hne : cs ≠ [])
    (hcontrol : ∀ c ∈ cs, isHardControl c = false) (hquote : '\'' ∉ cs) (rest : List Char) :
    readString ('\'' :: (cs ++ '\'' :: rest)) = some (String.ofList cs, rest) := by
  rw [readString,
    readLiteral_text hquote (fun c hc => isLineChar_of_not_hardControl (hcontrol c hc))]
  · rfl
  · intro tail he
    cases cs with
    | nil => exact hne rfl
    | cons c cs => exact hquote (List.mem_cons.2 (.inl (List.cons.inj he).1.symm))

/-- A text of several lines that does not begin with a break is written without a break in front. -/
theorem readString_basicLines (cs : List Char) {rest : List Char} (h : NoQuote '"' rest) :
    readString ('"' :: '"' :: '"' ::
      (leadingBreak cs ++ (escapeLines cs ++ '"' :: '"' :: '"' :: rest))) =
      some (String.ofList cs, rest) := by
  have hread := readBasicLines_escapeFrom cs (Nat.zero_le 2) h
  rw [List.replicate_zero, List.nil_append, List.nil_append] at hread
  rw [readString, afterFirstBreak_leadingBreak, escapeLines, hread]
  · rfl
  · intro hn c hc
    cases cs with
    | nil =>
      cases hc
      exact ⟨by decide, by decide⟩
    | cons first more =>
      obtain ⟨written, tail, hf, hcase⟩ := head_escapeFrom true 2 first more
      rw [escapeLines, hf] at hc
      cases hc
      rcases hcase with rfl | ⟨rfl, hreturn, -⟩
      · exact ⟨by decide, by decide⟩
      · exact ⟨fun he => hn (he ▸ List.mem_cons_self), hreturn⟩

theorem readString_literalLines {cs : List Char} (hchars : ∀ c ∈ cs, LinesChar c)
    (hruns : longestRun '\'' cs < 3) {rest : List Char} (h : NoQuote '\'' rest) :
    readString ('\'' :: '\'' :: '\'' :: (leadingBreak cs ++ (cs ++ '\'' :: '\'' :: '\'' :: rest))) =
      some (String.ofList cs, rest) := by
  have hread := readLiteralLines_text hchars (Nat.zero_le 2) hruns h
  rw [List.replicate_zero, List.nil_append, List.nil_append] at hread
  rw [readString, afterFirstBreak_leadingBreak, hread]
  · rfl
  · intro hn c hc
    cases cs with
    | nil =>
      cases hc
      exact ⟨by decide, by decide⟩
    | cons first more =>
      cases hc
      exact ⟨fun he => hn (he ▸ List.mem_cons_self), (hchars c List.mem_cons_self).ne_return⟩

/-- **Every string is read back**, in front of anything but a quote. -/
theorem readString_quoted (cs : List Char) {rest : List Char} (hdouble : NoQuote '"' rest)
    (hsingle : NoQuote '\'' rest) :
    readString (quoted cs ++ rest) = some (String.ofList cs, rest) := by
  rw [quoted]
  cases hform : QuoteForm.choose cs with
  | basic =>
    simp only [List.append_assoc, List.cons_append, List.nil_append]
    exact readString_basic cs hdouble
  | literal =>
    obtain ⟨hne, hcontrol, hquotes⟩ := choose_literal hform
    simp only [List.append_assoc, List.cons_append, List.nil_append]
    exact readString_literal hne hcontrol (notMem_of_longestRun hquotes) rest
  | basicLines =>
    simp only [List.append_assoc, List.cons_append, List.nil_append]
    exact readString_basicLines cs hdouble
  | literalLines =>
    obtain ⟨hchars, hruns⟩ := choose_literalLines hform
    simp only [List.append_assoc, List.cons_append, List.nil_append]
    exact readString_literalLines hchars hruns hsingle

/-! ## Names -/

/-- Text that no bare name goes on in. -/
def NameEnds (rest : List Char) : Prop := ∀ c ∈ rest.head?, isBareChar c = false

theorem isLineChar_of_plain {cs : List Char} (h : cs.any isHardControl = false) :
    ∀ c ∈ cs, isLineChar c = true := by
  rw [List.any_eq_false] at h
  exact fun c hc => isLineChar_of_not_hardControl (Bool.eq_false_iff.2 (h c hc))

/-- A bare name is all that a bare name can be. -/
theorem readName_bare {cs : List Char} (hne : cs ≠ []) (hbare : ∀ c ∈ cs, isBareChar c = true)
    {rest : List Char} (h : NameEnds rest) :
    readName (cs ++ rest) = some (String.ofList cs, rest) := by
  obtain ⟨htake, hdrop⟩ := Key.span_run hbare h
  obtain ⟨c, tail, rfl⟩ := List.exists_cons_of_ne_nil hne
  have hfirst : isBareChar c = true := hbare c List.mem_cons_self
  rw [readName.eq_def]
  split
  · next he =>
    rw [(List.cons.inj he).1] at hfirst
    exact absurd hfirst (by decide)
  · next he =>
    rw [(List.cons.inj he).1] at hfirst
    exact absurd hfirst (by decide)
  · rw [htake, hdrop]

/-- **Every name is read back**, in front of anything that it does not go on in. -/
theorem readName_nameText (name : String) {rest : List Char} (h : NameEnds rest) :
    readName (nameText name ++ rest) = some (name, rest) := by
  have hbasic : readName (('"' :: escapeLine name.toList ++ ['"']) ++ rest) =
      some (name, rest) := by
    rw [List.append_assoc, List.cons_append, List.singleton_append, readName, readBasic_escapeLine,
      Option.map_some]
    simp only [String.ofList_toList]
  rw [nameText]
  split
  · next hbare =>
    rw [Bool.and_eq_true, List.all_eq_true, Bool.not_eq_true', List.isEmpty_eq_false_iff] at hbare
    rw [readName_bare hbare.1 hbare.2 h, String.ofList_toList]
  split
  · exact hbasic
  split
  · next hliteral =>
    rw [Bool.and_eq_true, Bool.not_eq_true', Bool.not_eq_true', List.contains_eq_mem,
      decide_eq_false_iff_not] at hliteral
    rw [List.append_assoc, List.cons_append, List.singleton_append, readName,
      readLiteral_text hliteral.2 (isLineChar_of_plain hliteral.1), Option.map_some]
    simp only [String.ofList_toList]
  · exact hbasic

/-- A name begins with a quote or a character of a bare name. -/
theorem head_nameText (name : String) :
    ∃ c tail, nameText name = c :: tail ∧ (c = '"' ∨ c = '\'' ∨ isBareChar c = true) := by
  rw [nameText]
  split
  · next hbare =>
    rw [Bool.and_eq_true, List.all_eq_true] at hbare
    cases hn : name.toList with
    | nil =>
      rw [hn] at hbare
      exact absurd hbare.1 (by simp)
    | cons c tail => exact ⟨c, tail, rfl, .inr (.inr (hbare.2 c (hn ▸ List.mem_cons_self)))⟩
  split
  · exact ⟨'"', _, rfl, .inl rfl⟩
  split
  · exact ⟨'\'', _, rfl, .inr (.inl rfl)⟩
  · exact ⟨'"', _, rfl, .inl rfl⟩

theorem skipSpace_of_head {c : Char} {rest : List Char} (h : isSpace c = false) :
    skipSpace (c :: rest) = c :: rest := by
  rw [skipSpace, List.dropWhile_cons_of_neg (by rw [h]; exact Bool.false_ne_true)]

/-- No name begins with white space, a bracket, a break or the mark of a comment. -/
theorem ne_of_head_nameText {c : Char} (h : c = '"' ∨ c = '\'' ∨ isBareChar c = true) {other : Char}
    (ho : other ≠ '"' ∧ other ≠ '\'' ∧ isBareChar other = false) : c ≠ other := by
  rintro rfl
  rcases h with h | h | h
  · exact ho.1 h
  · exact ho.2.1 h
  · rw [ho.2.2] at h
    exact absurd h (by simp)

theorem skipSpace_nameText (name : String) (rest : List Char) :
    skipSpace (nameText name ++ rest) = nameText name ++ rest := by
  obtain ⟨c, tail, hn, hc⟩ := head_nameText name
  rw [hn, List.cons_append]
  refine skipSpace_of_head ?_
  rw [isSpace, Bool.or_eq_false_iff, beq_eq_false_iff_ne, beq_eq_false_iff_ne]
  exact ⟨ne_of_head_nameText hc (by decide), ne_of_head_nameText hc (by decide)⟩

/-! ## Keys -/

/-- Text that a key ends in front of: no name goes on in it and no dot comes next. -/
structure KeyEnds (rest : List Char) : Prop where
  name : NameEnds rest
  dot : ∀ tail, skipSpace rest ≠ '.' :: tail

theorem keyEnds_of_skipSpace {c d : Char} {cs tail : List Char} (hc : isBareChar c = false)
    (hskip : skipSpace (c :: cs) = d :: tail) (hd : d ≠ '.') : KeyEnds (c :: cs) := by
  refine ⟨?_, fun more he => ?_⟩
  · rintro _ ⟨⟩
    exact hc
  · rw [hskip] at he
    exact hd (List.cons.inj he).1

theorem readNames_pathText {names : List String} (hne : names ≠ []) {bound : Nat}
    (hb : names.length ≤ bound) {rest : List Char} (h : KeyEnds rest) :
    readNames bound (pathText names ++ rest) = some (names, skipSpace rest) := by
  induction names generalizing bound with
  | nil => exact absurd rfl hne
  | cons first more ih =>
    obtain ⟨bound, rfl⟩ : ∃ fewer, bound = fewer + 1 :=
      Nat.exists_eq_add_of_le' (Nat.le_trans (Nat.succ_le_succ (Nat.zero_le _)) hb)
    cases more with
    | nil =>
      rw [pathText, readNames, skipSpace_nameText, readName_nameText first h.name]
      simp only
      split
      · next he => exact absurd he (h.dot _)
      · rfl
    | cons second more =>
      have hih := ih (List.cons_ne_nil _ _) (Nat.le_of_succ_le_succ hb)
      have hdot : NameEnds ('.' :: (pathText (second :: more) ++ rest)) := by
        intro c hc
        cases hc
        decide
      rw [pathText, List.append_assoc, List.cons_append, readNames, skipSpace_nameText,
        readName_nameText first hdot]
      · simp only
        rw [skipSpace_of_head rfl]
        simp only
        rw [hih]
        rfl
      · exact List.cons_ne_nil _ _

/-- **A key is read back.** -/
theorem readKey_pathText (path : List String) (name : String) (hl : path.length < nestingLimit)
    {rest : List Char} (h : KeyEnds rest) :
    readKey (pathText (path ++ [name]) ++ rest) = some (path, name, skipSpace rest) := by
  have hne : path ++ [name] ≠ [] := List.append_ne_nil_of_right_ne_nil _ (List.cons_ne_nil _ _)
  have hlength : (path ++ [name]).length ≤ nestingLimit := by
    rw [List.length_append, List.length_singleton]
    exact hl
  rw [readKey, readNames_pathText hne hlength h]
  simp only [List.getLast?_append, List.getLast?_singleton, Option.some_or, Option.map_some,
    List.dropLast_concat]

end Sweep.Toml
