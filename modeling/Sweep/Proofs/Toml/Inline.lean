import Mathlib.Data.List.Nodup
import Sweep.Proofs.Document.Names
import Sweep.Proofs.Toml.Scalars

/-!
# Values in line, read back

The text of an item on one line is read back as that item in front of the end of a value
(`readItem_inline`). The items it holds for are told by `Item.InLine`, which goes by the
constructors of items and is what the induction is on: numbers in range, dates in their normal text,
no name twice in a table, and no more containers inside each other than the reader opens.
-/

set_option autoImplicit false

namespace Sweep.Toml

/-- An item that can be read back from one line, with at most `depth` containers inside each
other. -/
inductive Item.InLine : (depth : Nat) → Item → Prop where
  | text {depth : Nat} (s : String) : InLine depth (.text s)
  | whole {depth : Nat} {n : Int} : -0x8000000000000000 ≤ n → n < 0x8000000000000000 →
      InLine depth (.whole n)
  | double {depth : Nat} {x : Double} : x.TomlReadsBack → InLine depth (.double x)
  | bool {depth : Nat} (b : Bool) : InLine depth (.bool b)
  | datetime {depth : Nat} {d : Datetime} : Datetime.ofText d.text = .ok d →
      InLine depth (.datetime d)
  | list {depth : Nat} {items : List Item} : (∀ item ∈ items, InLine depth item) →
      InLine (depth + 1) (.list items)
  | table {depth : Nat} {entries : List (String × Item)} : (entries.map Prod.fst).Nodup →
      (∀ entry ∈ entries, InLine depth entry.2) → InLine (depth + 1) (.table entries)

/-! ## Where a value begins -/

/-- A character that a value can begin with. -/
def Starts (c : Char) : Prop := c ∉ [' ', '\t', '\n', '\r', '#', ']', '\x7d', ',']

instance (c : Char) : Decidable (Starts c) := inferInstanceAs (Decidable (c ∉ _))

theorem Starts.ne {c : Char} (h : Starts c) (other : Char)
    (ho : other ∈ [' ', '\t', '\n', '\r', '#', ']', '\x7d', ',']) : c ≠ other := by
  rintro rfl
  exact h ho

theorem Starts.notSpace {c : Char} (h : Starts c) : isSpace c = false := by
  rw [isSpace, Bool.or_eq_false_iff, beq_eq_false_iff_ne, beq_eq_false_iff_ne]
  exact ⟨h.ne _ (by decide), h.ne _ (by decide)⟩

theorem starts_of_digit {c : Char} (h : Text.isAsciiDigit c = true) : Starts c := by
  have hall : ∀ d ∈ [' ', '\t', '\n', '\r', '#', ']', '\x7d', ','],
      Text.isAsciiDigit d = false := by
    simp [Text.isAsciiDigit]
  intro hm
  rw [hall c hm] at h
  exact absurd h (by simp)

theorem begins_quoted (cs : List Char) :
    ∃ c tail, quoted cs = c :: tail ∧ (c = '"' ∨ c = '\'') := by
  rw [quoted]
  cases QuoteForm.choose cs with
  | basic | basicLines => exact ⟨'"', _, rfl, .inl rfl⟩
  | literal | literalLines => exact ⟨'\'', _, rfl, .inr rfl⟩

/-- Digits with a sign in front of them if they need one. -/
def SignedDigits (cs : List Char) : Prop :=
  ∃ (negative : Bool) (front after : List Char),
    cs = (if negative then ['-'] else []) ++ (front ++ after) ∧ FrontDigits front ∧
    ∀ c ∈ after.head?, c = '.'

theorem signedDigits_whole (n : Int) : SignedDigits (scalarText (.whole n)) := by
  refine ⟨decide (n < 0), Text.digits 10 n.natAbs, [], ?_, FrontDigits.ofNat _,
    fun c hc => absurd hc (by simp)⟩
  rw [scalarText, List.append_nil]
  by_cases hn : n < 0 <;> simp [hn]

theorem signedDigits_double (x : Double) : SignedDigits (doubleText x) := by
  obtain ⟨front, back, hp, hf, -⟩ := x.plain_shortest .upward
  refine ⟨x.negative, front, '.' :: back, ?_, hf, by rintro c ⟨⟩; rfl⟩
  rw [doubleText, hp]
  cases x.negative <;> simp

/-- A number text begins with a digit or a sign, and is taken for no date. -/
theorem SignedDigits.begins {cs : List Char} (h : SignedDigits cs) :
    (∃ c tail, cs = c :: tail ∧ (c = '-' ∨ Text.isAsciiDigit c = true)) ∧
      ∀ rest, NumberEnds rest →
        (beginsWithHour (cs ++ rest) || beginsWithYear (cs ++ rest)) = false := by
  obtain ⟨negative, front, after, rfl, hf, ha⟩ := h
  cases negative with
  | true =>
    exact ⟨⟨'-', _, rfl, .inl rfl⟩, fun rest _ => notDatetime_of_sign _⟩
  | false =>
    obtain ⟨c, tail, hc, hd⟩ := hf.exists_cons
    refine ⟨⟨c, tail ++ after, by rw [hc]; rfl, .inr hd⟩, fun rest hr => ?_⟩
    rw [if_neg Bool.false_ne_true, List.nil_append, List.append_assoc]
    refine notDatetime_of_run hf.digits fun c hc => ?_
    cases after with
    | nil =>
      obtain ⟨hdigit, hm⟩ := hr c hc
      refine ⟨hdigit, ?_, ?_⟩ <;>
      · rintro rfl
        exact hm (by decide)
    | cons first more =>
      cases hc
      rw [ha c rfl]
      decide

/-- Every value begins with a character that it can be told from the end of another by. -/
theorem begins_inline {depth : Nat} {item : Item} (h : item.InLine depth) :
    ∃ c tail, inline item = c :: tail ∧ Starts c := by
  have hnumber : ∀ {cs : List Char}, SignedDigits cs → ∃ c tail, cs = c :: tail ∧ Starts c := by
    intro cs hcs
    obtain ⟨c, tail, hc, hd⟩ := hcs.begins.1
    refine ⟨c, tail, hc, ?_⟩
    rcases hd with rfl | hd
    · decide
    · exact starts_of_digit hd
  cases h with
  | text s =>
    obtain ⟨c, tail, hq, hc⟩ := begins_quoted s.toList
    refine ⟨c, tail, hq, ?_⟩
    rcases hc with rfl | rfl <;> decide
  | @whole _ n _ _ => exact hnumber (signedDigits_whole n)
  | @double _ x _ => exact hnumber (signedDigits_double x)
  | bool b =>
    cases b
    · exact ⟨'f', _, rfl, by decide⟩
    · exact ⟨'t', _, rfl, by decide⟩
  | @datetime _ d hd =>
    obtain ⟨c, tail, hc, hdigit⟩ := digit_of_ofText hd
    exact ⟨c, tail, hc, starts_of_digit hdigit⟩
  | list _ => exact ⟨'[', _, rfl, by decide⟩
  | @table _ entries _ _ => cases entries <;> exact ⟨'\x7b', _, rfl, by decide⟩

/-! ## Scalars -/

theorem readItem_scalar {c : Char} {rest : List Char} (hlist : c ≠ '[') (htable : c ≠ '\x7b')
    (depth : Nat) : readItem depth (c :: rest) = readScalar (c :: rest) := by
  rw [readItem.eq_def]
  split
  · next he => cases he; exact absurd rfl hlist
  · next he => cases he; exact absurd rfl htable
  · next he => cases he; exact absurd rfl hlist
  · next he => cases he; exact absurd rfl htable
  · rfl

theorem readScalar_quoted (s : String) {rest : List Char} (h : ValueEnds rest) (depth : Nat) :
    readItem depth (quoted s.toList ++ rest) = some (.text s, rest) := by
  have hread := readString_quoted s.toList (h.noQuote (q := '"') (by decide))
    (h.noQuote (q := '\'') (by decide))
  obtain ⟨c, tail, hq, hc⟩ := begins_quoted s.toList
  rw [hq, List.cons_append] at hread ⊢
  rw [readItem_scalar (by rcases hc with rfl | rfl <;> decide)
    (by rcases hc with rfl | rfl <;> decide), readScalar, if_pos hc, hread, String.ofList_toList]
  rfl

/-- What begins with a digit or a sign is no string and no word. -/
theorem readScalar_digits {c : Char} {rest : List Char}
    (hc : c = '-' ∨ Text.isAsciiDigit c = true) :
    readScalar (c :: rest) =
      if beginsWithHour (c :: rest) || beginsWithYear (c :: rest) then
        (readDatetime (c :: rest)).toOption.map fun (d, rest) => (.datetime d, rest)
      else readNumber (c :: rest) := by
  rw [readScalar, if_neg, if_neg (Text.ne_of_number hc (by decide) rfl),
    if_neg (Text.ne_of_number hc (by decide) rfl)]
  rintro (he | he)
  · exact Text.ne_of_number hc (by decide) rfl he
  · exact Text.ne_of_number hc (by decide) rfl he

theorem readItem_number {cs rest : List Char} {item : Item} (h : SignedDigits cs)
    (hread : readNumber (cs ++ rest) = some (item, rest)) (hr : ValueEnds rest) (depth : Nat) :
    readItem depth (cs ++ rest) = some (item, rest) := by
  obtain ⟨⟨c, tail, rfl, hc⟩, hdate⟩ := h.begins
  have hno := hdate rest hr.number
  rw [List.cons_append] at hread hno ⊢
  rw [readItem_scalar (Text.ne_of_number hc (by decide) rfl) (Text.ne_of_number hc (by decide) rfl),
    readScalar_digits hc, hno, if_neg Bool.false_ne_true, hread]

theorem readItem_datetime {d : Datetime} (h : Datetime.ofText d.text = .ok d) {rest : List Char}
    (hr : ValueEnds rest) (depth : Nat) :
    readItem depth (d.text ++ rest) = some (.datetime d, rest) := by
  obtain ⟨hbegins, hread⟩ := readDatetime_of_ofText h hr
  obtain ⟨c, tail, hc, hd⟩ := digit_of_ofText h
  rw [hc, List.cons_append] at hbegins hread ⊢
  rw [readItem_scalar (Text.ne_of_digit hd rfl) (Text.ne_of_digit hd rfl),
    readScalar_digits (.inr hd), if_pos hbegins, hread]
  rfl

/-! ## Arrays -/

/-- Text of a value: it begins as one, and is read up to the end of it. -/
structure Reads (read : List Char → Option (Item × List Char)) (item : Item) : Prop where
  begins : ∃ c tail, inline item = c :: tail ∧ Starts c
  reads : ∀ {rest : List Char}, ValueEnds rest → read (inline item ++ rest) = some (item, rest)

theorem skipFiller_starts {c : Char} (h : Starts c) (rest : List Char) :
    skipFiller false (c :: rest) = some (c :: rest) := by
  rw [skipFiller, if_neg, if_neg (h.ne _ (by decide))]
  · rw [h.notSpace]
    exact Bool.false_ne_true
  · exact h.ne _ (by decide)
  · rintro tail rfl -
    exact absurd rfl (h.ne '\r' (by decide))

theorem readArray_step {read : List Char → Option (Item × List Char)} {item : Item}
    (h : Reads read item) (bound : Nat) {rest : List Char} (hr : ValueEnds rest) :
    readArray read (bound + 1) (inline item ++ rest) =
      match skipFiller false rest with
      | some (',' :: rest) =>
        (readArray read bound rest).map fun (more, after) => (item :: more, after)
      | some (']' :: rest) => some ([item], rest)
      | _ => none := by
  have hread := h.reads hr
  obtain ⟨c, tail, hc, hs⟩ := h.begins
  rw [hc, List.cons_append] at hread ⊢
  rw [readArray, skipFiller_starts hs]
  split
  · next he => cases he
  · next he =>
    cases he
    exact absurd rfl (hs.ne ']' (by decide))
  · next he =>
    cases he
    exact hread ▸ rfl

theorem readArray_space (read : List Char → Option (Item × List Char)) (bound : Nat)
    (cs : List Char) :
    readArray read bound (' ' :: cs) = readArray read bound cs := by
  cases bound with
  | zero => rfl
  | succ bound => rw [readArray, readArray]; rfl

/-- **The items of an array are read back** if each of them is. -/
theorem readArray_inlineItems {read : List Char → Option (Item × List Char)} {items : List Item}
    (h : ∀ item ∈ items, Reads read item) {bound : Nat} (hb : items.length < bound)
      (rest : List Char) :
    readArray read bound (inlineItems items ++ ']' :: rest) = some (items, rest) := by
  induction items generalizing bound with
  | nil =>
    obtain ⟨bound, rfl⟩ := Nat.exists_eq_add_of_le' hb
    rfl
  | cons first more ih =>
    obtain ⟨hfirst, hmore⟩ := List.forall_mem_cons.1 h
    obtain ⟨bound, rfl⟩ : ∃ fewer, bound = fewer + 1 :=
      Nat.exists_eq_add_of_le' (Nat.le_trans (Nat.succ_le_succ (Nat.zero_le _)) hb)
    cases more with
    | nil =>
      rw [inlineItems, readArray_step hfirst bound ⟨rest, .inr (.inl rfl)⟩]
      rfl
    | cons second more =>
      have hih := ih hmore (Nat.lt_of_succ_lt_succ hb)
      rw [inlineItems, List.append_assoc, List.cons_append, List.cons_append,
        readArray_step hfirst bound ⟨_, .inl rfl⟩]
      · show (readArray read bound (' ' :: (inlineItems (second :: more) ++ ']' :: rest))).map _ = _
        rw [readArray_space, hih]
        rfl
      · exact List.cons_ne_nil _ _

theorem length_le_inlineItems {items : List Item} (h : ∀ item ∈ items, inline item ≠ []) :
    items.length ≤ (inlineItems items).length := by
  induction items with
  | nil => exact Nat.zero_le _
  | cons first more ih =>
    obtain ⟨hfirst, hmore⟩ := List.forall_mem_cons.1 h
    have hpos := List.length_pos_iff.2 hfirst
    cases more with
    | nil => exact hpos
    | cons second more =>
      have hle := ih hmore
      rw [inlineItems]
      · simp only [List.length_append, List.length_cons] at hle ⊢
        omega
      · exact List.cons_ne_nil _ _

theorem Reads.ne_nil {read : List Char → Option (Item × List Char)} {item : Item}
    (h : Reads read item) :
    inline item ≠ [] := by
  obtain ⟨c, tail, hc, -⟩ := h.begins
  rw [hc]
  exact List.cons_ne_nil _ _

theorem readItem_list {depth : Nat} {items : List Item}
    (h : ∀ item ∈ items, Reads (readItem depth) item) (rest : List Char) :
    readItem (depth + 1) (inline (.list items) ++ rest) = some (.list items, rest) := by
  have hlength := length_le_inlineItems fun item hm => (h item hm).ne_nil
  rw [inline, List.append_assoc, List.cons_append, List.singleton_append, readItem,
    readArray_inlineItems h]
  · rfl
  · rw [List.length_append, List.length_cons]
    omega

/-! ## Tables in line -/

theorem keyEnds_equals (rest : List Char) : KeyEnds (' ' :: '=' :: rest) :=
  keyEnds_of_skipSpace rfl (show skipSpace (' ' :: '=' :: rest) = '=' :: rest from rfl) (by decide)

/-- **A name with its value is read back.** -/
theorem readPair_entry {read : List Char → Option (Item × List Char)} (name : String) {item : Item}
    (h : Reads read item) {rest : List Char} (hr : ValueEnds rest) :
    readPair read (nameText name ++ ' ' :: '=' :: ' ' :: (inline item ++ rest)) =
      some (([], name, item), rest) := by
  have hkey := readKey_pathText [] name (by decide) (keyEnds_equals (' ' :: (inline item ++ rest)))
  rw [List.nil_append, pathText] at hkey
  have hskip : skipSpace (' ' :: (inline item ++ rest)) = inline item ++ rest := by
    obtain ⟨c, tail, hc, hs⟩ := h.begins
    rw [hc]
    exact skipSpace_of_head hs.notSpace
  rw [readPair, hkey]
  simp only [Option.bind_eq_bind, Option.bind_some]
  show ((some (' ' :: (inline item ++ rest))).bind fun cs => _) = _
  rw [Option.bind_some, hskip, h.reads hr]
  rfl

theorem readPair_space (read : List Char → Option (Item × List Char)) (cs : List Char) :
    readPair read (' ' :: cs) = readPair read cs := rfl

/-- The pairs that the entries of a table in line are read as. -/
def pairsOf (entries : List (String × Item)) : List (List String × String × Item) :=
  entries.map fun entry => ([], entry.1, entry.2)

theorem readPairs_inlineEntries {read : List Char → Option (Item × List Char)}
    {entries : List (String × Item)} (hne : entries ≠ [])
    (h : ∀ entry ∈ entries, Reads read entry.2) {bound : Nat} (hb : entries.length ≤ bound)
    (rest : List Char) :
    readPairs read bound (inlineEntries entries ++ ' ' :: '\x7d' :: rest) =
      some (pairsOf entries, rest) := by
  induction entries generalizing bound with
  | nil => exact absurd rfl hne
  | cons first more ih =>
    obtain ⟨hfirst, hmore⟩ := List.forall_mem_cons.1 h
    obtain ⟨bound, rfl⟩ : ∃ fewer, bound = fewer + 1 :=
      Nat.exists_eq_add_of_le' (Nat.le_trans (Nat.succ_le_succ (Nat.zero_le _)) hb)
    obtain ⟨name, item⟩ := first
    cases more with
    | nil =>
      have hends : ValueEnds (' ' :: '\x7d' :: rest) := ⟨rest, .inr (.inr (.inr rfl))⟩
      have hpair := readPair_entry name hfirst hends
      rw [inlineEntries, List.append_assoc, List.cons_append, List.cons_append, List.cons_append,
        readPairs, hpair]
      rfl
    | cons second more =>
      have hih := ih (List.cons_ne_nil _ _) hmore (Nat.le_of_succ_le_succ hb)
      have hends :
        ValueEnds (',' :: ' ' :: (inlineEntries (second :: more) ++ ' ' :: '\x7d' :: rest)) :=
          ⟨_, .inl rfl⟩
      have hpair := readPair_entry name hfirst hends
      rw [inlineEntries]
      · simp only [List.append_assoc, List.cons_append]
        rw [readPairs, hpair]
        show (readPairs read bound (' ' ::
          (inlineEntries (second :: more) ++ ' ' :: '\x7d' :: rest))).map _ = _
        have hspace :
            readPairs read bound (' ' ::
              (inlineEntries (second :: more) ++ ' ' :: '\x7d' :: rest)) =
            readPairs read bound (inlineEntries (second :: more) ++ ' ' :: '\x7d' :: rest) := by
          cases bound with
          | zero => rfl
          | succ bound => rw [readPairs, readPairs, readPair_space]
        rw [hspace, hih]
        rfl
      · exact List.cons_ne_nil _ _

/-- New names are given their items in order. -/
theorem foldlM_assignDotted {entries : List (String × Item)} {before : DraftEntries}
    (h : (before.map Prod.fst ++ entries.map Prod.fst).Nodup) :
    entries.foldlM (fun draft entry => DraftEntries.assignDotted entry.1 entry.2 [] draft) before =
      some (before ++ entries.map fun entry => (entry.1, .item entry.2)) := by
  induction entries generalizing before with
  | nil =>
    rw [List.map_nil, List.append_nil]
    rfl
  | cons entry rest ih =>
    have hnew : entry.1 ∉ before.map Prod.fst := by
      rw [List.nodup_append'] at h
      exact fun hm => h.2.2 hm List.mem_cons_self
    have hassign : DraftEntries.assignDotted entry.1 entry.2 [] before =
        some (before ++ [(entry.1, .item entry.2)]) := by
      rw [DraftEntries.assignDotted, Entries.find?_of_notMem hnew]
    rw [List.foldlM_cons, hassign, Option.bind_eq_bind, Option.bind_some, ih]
    · rw [List.append_assoc]
      rfl
    · rw [List.map_append, List.append_assoc]
      exact h

theorem finishEntries_items (entries : List (String × Item)) :
    Draft.finishEntries (entries.map fun entry => (entry.1, .item entry.2)) = entries := by
  induction entries with
  | nil => rfl
  | cons entry rest ih => rw [List.map_cons, Draft.finishEntries, ih, Draft.finish]

theorem tableOf?_pairsOf {entries : List (String × Item)} (h : (entries.map Prod.fst).Nodup) :
    tableOf? (pairsOf entries) = some (.table entries) := by
  have hnew : (([] : DraftEntries).map Prod.fst ++ entries.map Prod.fst).Nodup := h
  have hfold := foldlM_assignDotted hnew
  rw [tableOf?, pairsOf, List.foldlM_map]
  simp only
  rw [hfold, Option.bind_eq_bind, Option.bind_some, List.nil_append, finishEntries_items]
  rfl

theorem length_le_inlineEntries (entries : List (String × Item)) :
    entries.length ≤ (inlineEntries entries).length := by
  induction entries with
  | nil => exact Nat.zero_le _
  | cons first more ih =>
    cases more with
    | nil =>
      simp only [inlineEntries, List.length_append, List.length_cons, List.length_nil]
      omega
    | cons second more =>
      rw [inlineEntries]
      · simp only [List.length_append, List.length_cons] at ih ⊢
        omega
      · exact List.cons_ne_nil _ _

theorem exists_inlineEntries_cons (first : String × Item) (more : List (String × Item)) :
    ∃ tail, inlineEntries (first :: more) = nameText first.1 ++ tail := by
  cases more with
  | nil => exact ⟨_, rfl⟩
  | cons second more =>
    rw [inlineEntries, List.append_assoc]
    · exact ⟨_, rfl⟩
    · exact List.cons_ne_nil _ _

theorem readItem_table {depth : Nat} {entries : List (String × Item)}
    (hnames : (entries.map Prod.fst).Nodup) (h : ∀ entry ∈ entries, Reads (readItem depth) entry.2)
    (rest : List Char) :
    readItem (depth + 1) (inline (.table entries) ++ rest) = some (.table entries, rest) := by
  cases entries with
  | nil => rfl
  | cons first more =>
    have hbound : (first :: more).length ≤
        (inlineEntries (first :: more) ++ ' ' :: '\x7d' :: rest).length := by
      have hle := length_le_inlineEntries (first :: more)
      rw [List.length_append]
      omega
    have hpairs := readPairs_inlineEntries (List.cons_ne_nil first more) h hbound rest
    obtain ⟨tail, htail⟩ := exists_inlineEntries_cons first more
    obtain ⟨c, name, hname, hc⟩ := head_nameText first.1
    have hskip : skipSpace (' ' :: (inlineEntries (first :: more) ++ ' ' :: '\x7d' :: rest)) =
        inlineEntries (first :: more) ++ ' ' :: '\x7d' :: rest := by
      rw [htail, List.append_assoc]
      exact skipSpace_nameText first.1 _
    rw [inline]
    · simp only [List.append_assoc, List.cons_append, List.nil_append]
      rw [readItem, readInlineTable, hskip]
      split
      · next he =>
        rw [htail, hname, List.append_assoc, List.cons_append] at he
        exact absurd (List.cons.inj he).1 (ne_of_head_nameText hc (by decide))
      · rw [hpairs]
        simp only
        rw [tableOf?_pairsOf hnames]
        rfl
    · exact List.cons_ne_nil _ _

/-- **A value in line is read back**, in front of the end of a value. -/
theorem readItem_inline {depth : Nat} {item : Item} (h : item.InLine depth) {rest : List Char}
    (hr : ValueEnds rest) :
    readItem depth (inline item ++ rest) = some (item, rest) := by
  induction h generalizing rest with
  | text s => exact readScalar_quoted s hr _
  | whole hlow hhigh =>
    exact readItem_number (signedDigits_whole _) (readNumber_whole hlow hhigh hr.number) hr _
  | double => exact readItem_number (signedDigits_double _) (readNumber_double _ hr.number) hr _
  | @bool depth b =>
    cases b
    · exact readItem_scalar (c := 'f') (by decide) (by decide) depth
    · exact readItem_scalar (c := 't') (by decide) (by decide) depth
  | datetime hd => exact readItem_datetime hd hr _
  | list hitems ih =>
    exact readItem_list (fun item hm => ⟨begins_inline (hitems item hm), ih item hm⟩) _
  | table hnames hentries ih =>
    exact readItem_table hnames (fun entry hm => ⟨begins_inline (hentries entry hm), ih entry hm⟩) _

theorem reads_inline {depth : Nat} {item : Item} (h : item.InLine depth) :
    Reads (readItem depth) item :=
  ⟨begins_inline h, readItem_inline h⟩

end Sweep.Toml
