import Mathlib.Data.List.Nodup
import Sweep.FileFormat
import Sweep.Proofs.Document.Names
import Sweep.Proofs.Document.Parts
import Sweep.Proofs.Json.Scalars

/-!
# Documents written in JSON, read back

The lines that a value is written in are read back as that value, in front of a comma or a line
break. The reader skips white space wherever the printer breaks lines, so a list is read back as
soon as its items are (`readContainer_separated` is the step, for items and entries alike); the rest
is an induction over values.

What is written is a document with its dates as texts, so that is what comes back: `DatesAsText`
says of two values that one is the other with every date replaced by its text and nothing else
changed.
-/

set_option autoImplicit false

namespace Sweep

namespace Json

/-! ## White space -/

theorem skipSpace_of_head {c : Char} {rest : List Char} (h : isSpace c = false) :
    skipSpace (c :: rest) = c :: rest := by
  rw [skipSpace, List.dropWhile_cons_of_neg (by rw [h]; exact Bool.false_ne_true)]

theorem skipSpace_newLine (level : Nat) (cs : List Char) :
    skipSpace (newLine level ++ cs) = skipSpace cs := by
  have hspace : ∀ c ∈ newLine level, isSpace c = true := by
    intro c hc
    rcases List.mem_cons.1 hc with rfl | hr
    · rfl
    · rw [List.eq_of_mem_replicate hr]
      rfl
  rw [skipSpace, List.dropWhile_append_of_pos hspace, skipSpace]

/-- What comes after a value in the lines of a document. -/
def Follows (rest : List Char) : Prop := ∃ tail, rest = ',' :: tail ∨ rest = '\n' :: tail

theorem Follows.numberEnds {rest : List Char} (h : Follows rest) : NumberEnds rest := by
  obtain ⟨tail, rfl | rfl⟩ := h <;> (rintro c ⟨⟩; decide)

theorem follows_newLine (level : Nat) (rest : List Char) :
    Follows (newLine level ++ rest) := ⟨_, .inr rfl⟩

/-! ## Sequences -/

section Separated

variable {α : Type}

/-- What is written for some items, with commas between them. -/
def separated (write : α → List Char) : List α → List Char
  | [] => []
  | [last] => write last
  | first :: rest => write first ++ ',' :: separated write rest

theorem separated_cons_cons (write : α → List Char) (first second : α) (rest : List α) :
    separated write (first :: second :: rest) =
      write first ++ ',' :: separated write (second :: rest) := rfl

theorem length_le_separated (write : α → List Char) (h : ∀ x, write x ≠ []) (xs : List α) :
    xs.length ≤ (separated write xs).length := by
  induction xs with
  | nil => exact Nat.zero_le _
  | cons first rest ih =>
    have hpos := List.length_pos_iff.2 (h first)
    cases rest with
    | nil => exact hpos
    | cons second more =>
      rw [separated_cons_cons]
      simp only [List.length_append, List.length_cons] at ih ⊢
      omega

variable {close : Char} {item : List Char → Option (α × List Char)} {write : α → List Char}
    {level : Nat}

/-- Items that are each read back, each on a line of its own, are read back up to the closing
character. -/
theorem readItems_separated (hspace : isSpace close = false) (hcomma : close ≠ ',') {first : α}
    {rest : List α} (h : ∀ x ∈ first :: rest,
      ∀ after, Follows after → item (skipSpace (write x ++ after)) = some (x, after))
    {bound : Nat} (hb : (first :: rest).length ≤ bound) (tail : List Char) :
    readItems close item bound (separated write (first :: rest) ++
      (newLine level ++ close :: tail)) =
      some (first :: rest, tail) := by
  induction rest generalizing first bound with
  | nil =>
    obtain ⟨bound, rfl⟩ : ∃ fewer, bound = fewer + 1 := Nat.exists_eq_add_of_le' hb
    rw [separated, readItems, h first List.mem_cons_self _ (follows_newLine level _)]
    simp only
    rw [skipSpace_newLine, skipSpace_of_head hspace]
    simp only [if_true]
  | cons second more ih =>
    obtain ⟨bound, rfl⟩ : ∃ fewer, bound = fewer + 1 :=
      Nat.exists_eq_add_of_le' (Nat.le_trans (Nat.succ_le_succ (Nat.zero_le _)) hb)
    rw [separated_cons_cons, List.append_assoc, List.cons_append, readItems,
      h first List.mem_cons_self _ ⟨_, .inl rfl⟩]
    simp only
    rw [skipSpace_of_head rfl]
    simp only [if_neg hcomma.symm, if_true]
    rw [ih (fun x hx => h x (List.mem_cons_of_mem _ hx)) (Nat.le_of_succ_le_succ hb)]
    rfl

/-- A first character that is neither white space nor the end of a container. -/
def Begins (close : Char) (cs : List Char) :
    Prop := ∃ c tail, cs = c :: tail ∧ isSpace c = false ∧ c ≠ close

theorem Begins.skipSpace_append {cs : List Char} (h : Begins close cs) (rest : List Char) :
    skipSpace (cs ++ rest) = cs ++ rest := by
  obtain ⟨c, tail, rfl, hs, -⟩ := h
  exact skipSpace_of_head hs

theorem Begins.ne_nil {cs : List Char} (h : Begins close cs) : cs ≠ [] := by
  obtain ⟨c, tail, rfl, -⟩ := h
  exact List.cons_ne_nil _ _

/-- The reader skips to the first item, and at least a comma for each of the others is still to
come. -/
theorem skipSpace_separated (inner : Nat) {first : α} (hbegin : Begins close (write first))
    (rest : List α) (tail : List Char) :
    ∃ more, skipSpace (separated (fun x => newLine inner ++ write x) (first :: rest) ++ tail) =
      write first ++ more ∧ rest.length ≤ more.length := by
  cases rest with
  | nil =>
    refine ⟨tail, ?_, Nat.zero_le _⟩
    rw [separated, List.append_assoc, skipSpace_newLine, hbegin.skipSpace_append]
  | cons second others =>
    refine ⟨',' :: separated (fun x => newLine inner ++ write x) (second :: others) ++ tail, ?_, ?_⟩
    · rw [separated_cons_cons, List.append_assoc, List.append_assoc, skipSpace_newLine,
        hbegin.skipSpace_append]
    · have hl := length_le_separated (fun x => newLine inner ++ write x)
        (fun x => List.cons_ne_nil _ _) (second :: others)
      simp only [List.length_append, List.length_cons] at hl ⊢
      omega

/-- **A container is read back** if its items are, each on a line of its own. -/
theorem readContainer_separated (hspace : isSpace close = false) (hcomma : close ≠ ',')
    (inner : Nat) {xs : List α} (hne : xs ≠ []) (hbegin : ∀ x ∈ xs, Begins close (write x))
    (h : ∀ x ∈ xs, ∀ after, Follows after → item (write x ++ after) = some (x, after))
    (tail : List Char) :
    readContainer close item
        (separated (fun x => newLine inner ++ write x) xs ++ (newLine level ++ close :: tail)) =
          some (xs, tail) := by
  cases xs with
  | nil => exact absurd rfl hne
  | cons first rest =>
    have heach : ∀ x ∈ first :: rest, ∀ after, Follows after →
        item (skipSpace ((newLine inner ++ write x) ++ after)) = some (x, after) := by
      intro x hx after ha
      rw [List.append_assoc, skipSpace_newLine, (hbegin x hx).skipSpace_append, h x hx after ha]
    obtain ⟨more, hmore, hlength⟩ :=
      skipSpace_separated inner (hbegin first List.mem_cons_self)
        rest (newLine level ++ close :: tail)
    obtain ⟨c, begun, hc, hs, hclose⟩ := hbegin first List.mem_cons_self
    rw [hc, List.cons_append] at hmore
    -- the white space in front of the first item is skipped before the items are read, which makes
    -- no difference to them
    have hitems : ∀ bound, readItems close item bound (c :: (begun ++ more)) =
        readItems close item bound (separated (fun x => newLine inner ++ write x) (first :: rest) ++
          (newLine level ++ close :: tail)) := by
      intro bound
      cases bound with
      | zero => rfl
      | succ bound => rw [readItems, readItems, hmore, skipSpace_of_head hs]
    rw [readContainer, hmore]
    simp only [if_neg hclose]
    rw [hitems]
    refine readItems_separated hspace hcomma heach ?_ tail
    rw [List.length_cons, List.length_append]
    omega

end Separated

/-! ## Values -/

/-- A value that can be read back: no table names anything twice, and the text of every double reads
back to it. -/
structure Readable (v : Value) : Prop where
  distinct : ∀ entries, (Value.table entries).IsPart v → (entries.map Prod.fst).Nodup
  doubles : ∀ x, (Value.double x).IsPart v → x.JsonReadsBack

theorem Readable.item {items : List Value} (h : Readable (.list items)) {item : Value}
    (hm : item ∈ items) :
    Readable item :=
  ⟨fun entries hp => h.distinct entries (.item hm hp), fun x hp => h.doubles x (.item hm hp)⟩

theorem Readable.entry {entries : List (String × Value)} (h : Readable (.table entries))
    {entry : String × Value} (hm : entry ∈ entries) : Readable entry.2 :=
  ⟨fun inner hp => h.distinct inner (.entry hm hp), fun x hp => h.doubles x (.entry hm hp)⟩

theorem tableOf_of_nodup {entries : List (String × Value)} (h : (entries.map Prod.fst).Nodup) :
    tableOf entries = entries := by
  have hfrom : ∀ (entries before : List (String × Value)),
      ((before ++ entries).map Prod.fst).Nodup →
      entries.foldl (fun table entry => Entries.put entry.1 entry.2 table) before =
        before ++ entries := by
    intro entries
    induction entries with
    | nil => intro before _; rw [List.foldl_nil, List.append_nil]
    | cons entry rest ih =>
      intro before hd
      obtain ⟨name, value⟩ := entry
      have hnew : name ∉ before.map Prod.fst := by
        rw [List.map_append, List.nodup_append'] at hd
        exact fun hm => hd.2.2 hm List.mem_cons_self
      rw [List.foldl_cons]
      simp only
      rw [Entries.put_of_notMem hnew, ih _ (by rwa [List.append_assoc]), List.append_assoc]
      rfl
  exact hfrom entries [] h

/-- A reader of values goes on to scalars unless a container opens. -/
theorem readValue_scalar {c : Char} {rest : List Char} (hlist : c ≠ '[') (htable : c ≠ '\x7b')
    (depth : Nat) : readValue depth (c :: rest) = readScalar (c :: rest) := by
  rw [readValue.eq_def]
  split
  · next hc => cases hc; exact absurd rfl hlist
  · next hc => cases hc; exact absurd rfl htable
  · next hc => cases hc; exact absurd rfl hlist
  · next hc => cases hc; exact absurd rfl htable
  · rfl

/-- A number text begins with a digit or a minus sign. -/
theorem begins_of_readNumber {cs after : List Char} {v : Value}
    (h : readNumber cs = some (v, after)) :
    ∃ c tail, cs = c :: tail ∧ (c = '-' ∨ Text.isAsciiDigit c = true) := by
  cases cs with
  | nil => exact absurd h (by simp [readNumber, readMagnitude_nil])
  | cons c tail =>
    refine ⟨c, tail, rfl, ?_⟩
    by_cases hminus : c = '-'
    · exact .inl hminus
    right
    by_contra hd
    have hnone : readNumber (c :: tail) = none := by
      have hfront : readFront (c :: tail) = none := by
        rw [readFront, readDigits, List.takeWhile_cons_of_neg hd]
        rintro rest he
        cases he
        exact absurd rfl hd
      rw [readNumber, readMagnitude, hfront]
      · rfl
      · rintro rest he
        cases he
        exact absurd rfl hminus
    rw [hnone] at h
    exact absurd h (by simp)

theorem readValue_number {cs : List Char} {v : Value} (h : readNumber cs = some (v, []))
    (depth : Nat) {rest : List Char} (hr : Follows rest) :
    readValue depth (cs ++ rest) = some (v, rest) := by
  have hread := readsOn_readNumber hr.numberEnds h
  obtain ⟨c, tail, rfl, hc⟩ := begins_of_readNumber h
  rw [List.cons_append] at hread ⊢
  rw [readValue_scalar (Text.ne_of_number hc (by decide) rfl)
    (Text.ne_of_number hc (by decide) rfl), readScalar.eq_def]
  split
  · next he => cases he; exact absurd rfl (Text.ne_of_number hc (by decide) rfl)
  · next he => cases he; exact absurd rfl (Text.ne_of_number hc (by decide) rfl)
  · next he => cases he; exact absurd rfl (Text.ne_of_number hc (by decide) rfl)
  · next he => cases he; exact absurd rfl (Text.ne_of_number hc (by decide) rfl)
  · exact hread

theorem begins_number {cs : List Char} {v : Value} (h : readNumber cs = some (v, [])) {close : Char}
    (hminus : '-' ≠ close) (hdigit : Text.isAsciiDigit close = false) : Begins close cs := by
  obtain ⟨c, tail, rfl, hc⟩ := begins_of_readNumber h
  have hne : ∀ space : Char, '-' ≠ space → Text.isAsciiDigit space = false → (c == space) = false :=
    fun space hs hd => beq_eq_false_iff_ne.2 (Text.ne_of_number hc hs hd)
  refine ⟨c, tail, rfl, ?_, Text.ne_of_number hc hminus hdigit⟩
  rw [isSpace, hne ' ' (by decide) rfl, hne '\n' (by decide) rfl, hne '\t' (by decide) rfl,
    hne '\r' (by decide) rfl]
  rfl

/-- Every value begins with a character of its own. -/
theorem begins_pretty {v : Value} (h : Readable v) (level : Nat) {close : Char}
    (hclose : close = ']' ∨ close = '\x7d') : Begins close (pretty level v) := by
  have hother :
      ∀ c : Char, ∀ tail, isSpace c = false → c ≠ ']' → c ≠ '\x7d' → Begins close (c :: tail) := by
    rintro c tail hs hlist htable
    exact ⟨c, tail, rfl, hs, by rcases hclose with rfl | rfl <;> assumption⟩
  have hnumber :
      ∀ (cs : List Char) (v : Value), readNumber cs = some (v, []) → Begins close cs := by
    rintro cs v hr
    rcases hclose with rfl | rfl <;> exact begins_number hr (by decide) (by decide)
  cases v with
  | null => exact hother 'n' _ rfl (by decide) (by decide)
  | bool b => cases b <;> exact hother _ _ rfl (by decide) (by decide)
  | whole n => exact hnumber _ _ (readNumber_whole n)
  | double x => exact hnumber _ _ (h.doubles x .self)
  | text s => exact hother '"' _ rfl (by decide) (by decide)
  | list items => cases items <;> exact hother '[' _ rfl (by decide) (by decide)
  | table entries => cases entries <;> exact hother '\x7b' _ rfl (by decide) (by decide)

theorem prettyItems_eq (level : Nat) (items : List Value) :
    prettyItems level items = separated (fun v => newLine level ++ pretty level v) items := by
  induction items with
  | nil => rfl
  | cons first rest ih =>
    cases rest with
    | nil => rfl
    | cons second more =>
      rw [separated_cons_cons, ← ih]
      rfl

/-- What is written for an entry. -/
def entryText (level : Nat) (entry : String × Value) : List Char :=
  quoted entry.1 ++ ':' :: ' ' :: pretty level entry.2

theorem prettyEntries_eq (level : Nat) (entries : List (String × Value)) :
    prettyEntries level entries =
      separated (fun entry => newLine level ++ entryText level entry) entries := by
  induction entries with
  | nil => rfl
  | cons first rest ih =>
    cases rest with
    | nil => simp only [prettyEntries, separated, entryText, List.append_assoc]
    | cons second more =>
      rw [separated, ← ih, prettyEntries, entryText]
      · simp only [List.append_assoc, List.cons_append]
      all_goals exact List.cons_ne_nil _ _

theorem readEntry_entryText {value : List Char → Option (Value × List Char)} {level : Nat}
    {entry : String × Value} {rest : List Char}
    (hbegin : Begins ']' (pretty level entry.2))
    (h : value (pretty level entry.2 ++ rest) = some (entry.2, rest)) :
    readEntry value (entryText level entry ++ rest) = some (entry, rest) := by
  rw [entryText, List.append_assoc, readEntry, readString_quoted]
  simp only [List.cons_append]
  rw [skipSpace_of_head rfl]
  simp only
  have hspace : skipSpace (' ' :: (pretty level entry.2 ++ rest)) = pretty level entry.2 ++ rest :=
    hbegin.skipSpace_append rest
  rw [hspace, h]
  rfl

/-- **A value in lines is read back**, in front of a comma or a line break. -/
theorem readValue_pretty {v : Value} (h : Readable v) (level : Nat) {depth : Nat}
    (hd : v.depth ≤ depth) {rest : List Char} (hr : Follows rest) :
    readValue depth (pretty level v ++ rest) = some (v, rest) := by
  induction v generalizing level depth rest with
  | null => exact readValue_scalar (c := 'n') (by decide) (by decide) depth
  | bool b =>
    cases b
    · exact readValue_scalar (c := 'f') (by decide) (by decide) depth
    · exact readValue_scalar (c := 't') (by decide) (by decide) depth
  | whole n => exact readValue_number (readNumber_whole n) depth hr
  | double x => exact readValue_number (h.doubles x .self) depth hr
  | text s =>
    have hs := readString_quoted s rest
    obtain ⟨tail, ht⟩ : ∃ tail, quoted s ++ rest = '"' :: tail := ⟨_, rfl⟩
    show readValue depth (quoted s ++ rest) = _
    rw [ht] at hs ⊢
    rw [readValue_scalar (by decide) (by decide), readScalar, hs]
    rfl
  | list items ih =>
    rw [Value.depth] at hd
    obtain ⟨depth, rfl⟩ := Nat.exists_eq_add_of_le' (Nat.le_trans (Nat.le_add_left 1 _) hd)
    have hitems := Value.itemsDepth_le_iff.1 (Nat.le_of_succ_le_succ hd)
    cases items with
    | nil => rfl
    | cons first more =>
      simp only [pretty, List.cons_append, List.append_assoc, List.nil_append]
      rw [readValue, prettyItems_eq,
        readContainer_separated rfl (by decide) (level + 1) (List.cons_ne_nil _ _)]
      · rfl
      · exact fun item hm => begins_pretty (h.item hm) _ (.inl rfl)
      · exact fun item hm after ha => ih item hm (h.item hm) _ (hitems item hm) ha
  | table entries ih =>
    rw [Value.depth] at hd
    obtain ⟨depth, rfl⟩ := Nat.exists_eq_add_of_le' (Nat.le_trans (Nat.le_add_left 1 _) hd)
    have hentries := Value.entriesDepth_le_iff.1 (Nat.le_of_succ_le_succ hd)
    cases entries with
    | nil => rfl
    | cons first more =>
      simp only [pretty, List.cons_append, List.append_assoc, List.nil_append]
      rw [readValue, prettyEntries_eq,
        readContainer_separated rfl (by decide) (level + 1) (List.cons_ne_nil _ _)]
      · rw [Option.map_some]
        simp only
        rw [tableOf_of_nodup (h.distinct _ .self)]
      · exact fun entry _ => ⟨'"', _, rfl, rfl, by decide⟩
      · exact fun entry hm after ha =>
          readEntry_entryText (begins_pretty (h.entry hm) _ (.inl rfl))
            (ih entry hm (h.entry hm) _ (hentries entry hm) ha)

/-! ## Dates as texts -/

/-- The second value is the first one with every date or time replaced by its text, and nothing else
changed: not the names, not their order, not the order of items, and no scalar. -/
inductive DatesAsText : Value → Value → Prop where
  | date {v : Value} {stamp : String} : v.datetime? = some stamp → DatesAsText v (.text stamp)
  | null : DatesAsText .null .null
  | bool (b : Bool) : DatesAsText (.bool b) (.bool b)
  | whole (n : Whole) : DatesAsText (.whole n) (.whole n)
  | double (x : Double) : DatesAsText (.double x) (.double x)
  | text (s : String) : DatesAsText (.text s) (.text s)
  | list {items items' : List Value} : List.Forall₂ DatesAsText items items' →
      DatesAsText (.list items) (.list items')
  | table {entries entries' : List (String × Value)} : (Value.table entries).datetime? = none →
      entries'.map Prod.fst = entries.map Prod.fst →
      List.Forall₂ DatesAsText (entries.map Prod.snd) (entries'.map Prod.snd) →
      DatesAsText (.table entries) (.table entries')

theorem plainItems_eq_map (items : List Value) : plainItems items = items.map plain := by
  induction items with
  | nil => rfl
  | cons first rest ih => rw [plainItems, List.map_cons, ih]

theorem plain_list (items : List Value) : plain (.list items) = .list (items.map plain) := by
  rw [← plainItems_eq_map]
  rfl

theorem plainEntries_eq_map (entries : List (String × Value)) :
    plainEntries entries = entries.map fun entry => (entry.1, plain entry.2) := by
  induction entries with
  | nil => rfl
  | cons first rest ih => rw [plainEntries, List.map_cons, ih]

theorem names_plainEntries (entries : List (String × Value)) :
    (plainEntries entries).map Prod.fst = entries.map Prod.fst := by
  rw [plainEntries_eq_map, List.map_map]
  rfl

theorem values_plainEntries (entries : List (String × Value)) :
    (plainEntries entries).map Prod.snd = (entries.map Prod.snd).map plain := by
  rw [plainEntries_eq_map, List.map_map, List.map_map]
  rfl

/-- A table is written as such unless it is a date. -/
theorem plain_table (entries : List (String × Value)) :
    (∃ stamp, (Value.table entries).datetime? = some stamp ∧ plain (.table entries) = .text stamp) ∨
      ((Value.table entries).datetime? = none ∧
        plain (.table entries) = .table (plainEntries entries)) := by
  rw [plain]
  cases (Value.table entries).datetime? with
  | none => exact .inr ⟨rfl, rfl⟩
  | some stamp => exact .inl ⟨stamp, rfl, rfl⟩

theorem forall₂_plain {values : List Value} (h : ∀ v ∈ values, DatesAsText v (plain v)) :
    List.Forall₂ DatesAsText values (values.map plain) := by
  rw [List.forall₂_map_right_iff, List.forall₂_same]
  exact h

/-- What is written for a value is that value with its dates as texts. -/
theorem datesAsText_plain (v : Value) : DatesAsText v (plain v) := by
  induction v with
  | null => exact .null
  | bool b => exact .bool b
  | whole n => exact .whole n
  | double x => exact .double x
  | text s => exact .text s
  | list items ih =>
    rw [plain_list]
    exact .list (forall₂_plain ih)
  | table entries ih =>
    rcases plain_table entries with ⟨stamp, hd, hp⟩ | ⟨hd, hp⟩ <;> rw [hp]
    · exact .date hd
    · refine .table hd (names_plainEntries entries) ?_
      rw [values_plainEntries]
      refine forall₂_plain fun v hv => ?_
      obtain ⟨entry, hm, rfl⟩ := List.mem_map.1 hv
      exact ih entry hm

/-- A container in a written value is a container of the value itself with its dates as texts. -/
theorem isPart_plain {part v : Value} (h : part.IsPart (plain v)) :
    ∃ origin : Value, origin.IsPart v ∧ part = plain origin := by
  induction v with
  | null | bool | whole | double | text =>
    cases h
    exact ⟨_, .self, rfl⟩
  | list items ih =>
    rw [plain_list, Value.isPart_list_iff] at h
    rcases h with rfl | ⟨written, hm, hp⟩
    · exact ⟨_, .self, (plain_list items).symm⟩
    · obtain ⟨item, hi, rfl⟩ := List.mem_map.1 hm
      obtain ⟨origin, ho, rfl⟩ := ih item hi hp
      exact ⟨origin, .item hi ho, rfl⟩
  | table entries ih =>
    rcases plain_table entries with ⟨stamp, -, hw⟩ | ⟨-, hw⟩ <;> rw [hw] at h
    · cases h
      exact ⟨_, .self, hw.symm⟩
    · rw [Value.isPart_table_iff] at h
      rcases h with rfl | ⟨written, hm, hp⟩
      · exact ⟨_, .self, hw.symm⟩
      · rw [plainEntries_eq_map] at hm
        obtain ⟨entry, he, rfl⟩ := List.mem_map.1 hm
        obtain ⟨origin, ho, rfl⟩ := ih entry he hp
        exact ⟨origin, .entry he ho, rfl⟩

theorem depth_plain_le {v : Value} {bound : Nat} (h : v.depth ≤ bound) :
    (plain v).depth ≤ bound := by
  induction v generalizing bound with
  | null | bool | whole | double | text => exact h
  | list items ih =>
    rw [Value.depth] at h
    obtain ⟨bound, rfl⟩ := Nat.exists_eq_add_of_le' (Nat.le_trans (Nat.le_add_left 1 _) h)
    rw [plain_list, Value.depth]
    refine Nat.succ_le_succ (Value.itemsDepth_le_iff.2 fun written hm => ?_)
    obtain ⟨item, hi, rfl⟩ := List.mem_map.1 hm
    exact ih item hi (Value.itemsDepth_le_iff.1 (Nat.le_of_succ_le_succ h) item hi)
  | table entries ih =>
    rw [Value.depth] at h
    obtain ⟨bound, rfl⟩ := Nat.exists_eq_add_of_le' (Nat.le_trans (Nat.le_add_left 1 _) h)
    rcases plain_table entries with ⟨stamp, -, hw⟩ | ⟨-, hw⟩ <;> rw [hw]
    · exact Nat.zero_le _
    · rw [plainEntries_eq_map, Value.depth]
      refine Nat.succ_le_succ (Value.entriesDepth_le_iff.2 fun written hm => ?_)
      obtain ⟨entry, he, rfl⟩ := List.mem_map.1 hm
      exact ih entry he (Value.entriesDepth_le_iff.1 (Nat.le_of_succ_le_succ h) entry he)

/-! ## Documents -/

/-- What is written for a document can be read back. -/
theorem readable_plainEntries {doc : Document} (hnames : doc.DistinctNames)
    (hdoubles : ∀ x, doc.HasPart (.double x) → x.JsonReadsBack) :
    Readable (.table (plainEntries doc.entries)) := by
  have hpart : ∀ part : Value, part.IsPart (.table (plainEntries doc.entries)) →
      part = .table (plainEntries doc.entries) ∨
      ∃ origin, doc.HasPart origin ∧ part = plain origin := by
    intro part hp
    rcases Value.isPart_table_iff.1 hp with rfl | ⟨written, hm, hp⟩
    · exact .inl rfl
    · rw [plainEntries_eq_map] at hm
      obtain ⟨entry, he, rfl⟩ := List.mem_map.1 hm
      obtain ⟨origin, ho, rfl⟩ := isPart_plain hp
      exact .inr ⟨origin, ⟨entry, he, ho⟩, rfl⟩
  constructor
  · intro entries hp
    rcases hpart _ hp with he | ⟨origin, ho, he⟩
    · cases he
      rw [names_plainEntries]
      exact hnames.root
    · cases origin with
      | table inner =>
        rcases plain_table inner with ⟨stamp, -, hw⟩ | ⟨-, hw⟩ <;> rw [hw] at he <;> cases he
        rw [names_plainEntries]
        exact hnames.below inner ho
      | null | bool | whole | double | text | list => cases he
  · intro x hp
    rcases hpart _ hp with he | ⟨origin, ho, he⟩
    · cases he
    · cases origin with
      | double y =>
        cases he
        exact hdoubles x ho
      | table inner =>
        rcases plain_table inner with ⟨stamp, -, hw⟩ | ⟨-, hw⟩ <;> rw [hw] at he <;> cases he
      | null | bool | whole | text | list => cases he

/-- **A document that is written as JSON is read back, with its dates as texts.** Its names and
their order stay, and so do the order of the items in a list, every whole number and every double
with its kind, every text and every name. -/
theorem decode_encode (doc : Document) (hnames : doc.DistinctNames)
    (hdoubles : ∀ x, doc.HasPart (.double x) → x.JsonReadsBack)
    (hdepth : (Value.table doc.entries).depth ≤ 127) :
    ∃ text back, FileFormat.json.encode doc = .ok text ∧ FileFormat.json.decode? text = some back ∧
      back.entries = plainEntries doc.entries ∧
      back.entries.map Prod.fst = doc.entries.map Prod.fst ∧
      List.Forall₂ DatesAsText (doc.entries.map Prod.snd) (back.entries.map Prod.snd) := by
  refine ⟨_, ⟨plainEntries doc.entries⟩, rfl, ?_, rfl, names_plainEntries _, ?_⟩
  · have hvalue : readValue nestingLimit (pretty 0 (.table (plainEntries doc.entries)) ++ ['\n']) =
        some (.table (plainEntries doc.entries), ['\n']) := by
      refine readValue_pretty (readable_plainEntries hnames hdoubles) 0 ?_ ⟨[], .inr rfl⟩
      -- the root is written as a table even where it has the one entry of a date
      rw [Value.depth] at hdepth ⊢
      refine Nat.succ_le_succ (Value.entriesDepth_le_iff.2 fun written hm => ?_)
      rw [plainEntries_eq_map] at hm
      obtain ⟨entry, he, rfl⟩ := List.mem_map.1 hm
      exact depth_plain_le (Value.entriesDepth_le_iff.1 (Nat.le_of_succ_le_succ hdepth) entry he)
    have hbegin : skipSpace (pretty 0 (.table (plainEntries doc.entries)) ++ ['\n']) =
        pretty 0 (.table (plainEntries doc.entries)) ++ ['\n'] := by
      cases plainEntries doc.entries <;> rfl
    rw [FileFormat.decode?, readTable?, read?, String.toList_ofList, hbegin, hvalue]
    rfl
  · rw [values_plainEntries]
    exact forall₂_plain fun v _ => datesAsText_plain v

/-- A document with what is easily lost on the way: empty containers, a date below the root, a table
that only looks like one, the largest whole number, a zero with a sign, and a name and a text that
have to be escaped. -/
def oddments : Document :=
  ⟨[("when", .ofDatetime "1979-05-27"),
    ("not\ta date", .table [(Value.datetimeField, .bool true)]),
    ("empty", .list [.list [], .table []]),
    ("largest", .whole ⟨0xFFFFFFFFFFFFFFFF, by decide, by decide⟩),
    ("small", .list [.double ⟨false, 1019, 0x999999999999A⟩, .double (.zero true), .whole default]),
    ("text", .table [("quoted", .text "\"\\\u0001é😀")])]⟩

theorem decode_encode_oddments :
    oddments.DistinctNames ∧ (∀ x, oddments.HasPart (.double x) → x.JsonReadsBack) ∧
      (Value.table oddments.entries).depth ≤ 127 ∧
      ∃ text back, FileFormat.json.encode oddments = .ok text ∧
        FileFormat.json.decode? text = some back ∧ back.entries = plainEntries oddments.entries ∧
        back.entries.map Prod.fst = oddments.entries.map Prod.fst ∧
        List.Forall₂ DatesAsText (oddments.entries.map Prod.snd) (back.entries.map Prod.snd) := by
  have hnames : oddments.DistinctNames := by
    refine ⟨by decide, ?_⟩
    rintro entries ⟨entry, hm, hp⟩
    simp only [oddments, List.mem_cons, List.not_mem_nil, or_false] at hm
    rcases hm with rfl | rfl | rfl | rfl | rfl | rfl <;>
      simp [Value.ofDatetime, Value.isPart_list_iff, Value.isPart_table_iff,
        Value.isPart_scalar_iff] at hp
    all_goals rw [hp]; decide
  have hdoubles : ∀ x, oddments.HasPart (.double x) → x.JsonReadsBack := by
    rintro x ⟨entry, hm, hp⟩
    simp only [oddments, List.mem_cons, List.not_mem_nil, or_false] at hm
    rcases hm with rfl | rfl | rfl | rfl | rfl | rfl <;>
      simp [Value.ofDatetime, Value.isPart_list_iff, Value.isPart_table_iff,
        Value.isPart_scalar_iff] at hp
    rcases hp with rfl | rfl
    · have htext : doubleText ⟨false, 1019, 0x999999999999A⟩ = ['0', '.', '1'] := by decide +kernel
      have hread : Double.ofScaled? false 1 (-1) = some ⟨false, 1019, 0x999999999999A⟩ := by
        decide +kernel
      rw [Double.JsonReadsBack, htext]
      exact (readMagnitude_eq_some_iff false _ [] _).2
        ⟨['0'], _, some ['1'], _, none, rfl, rfl, rfl,
          by simp [magnitude?, gather, Text.decimalValue?, hread]⟩
    · have htext : doubleText (.zero true) = ['-', '0', '.', '0'] := by decide +kernel
      have hread : Double.ofScaled? true 0 (-1) = some (.zero true) := by decide +kernel
      rw [Double.JsonReadsBack, htext]
      exact (readMagnitude_eq_some_iff true _ [] _).2
        ⟨['0'], _, some ['0'], _, none, rfl, rfl, rfl,
          by simp [magnitude?, gather, Text.decimalValue?, hread]⟩
  have hdepth : (Value.table oddments.entries).depth ≤ 127 := by decide
  exact ⟨hnames, hdoubles, hdepth, decode_encode oddments hnames hdoubles hdepth⟩

end Json

end Sweep
