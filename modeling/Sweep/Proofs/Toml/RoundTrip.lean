import Sweep.FileFormat
import Sweep.Proofs.Toml.Building

/-!
# Documents written in TOML, read back

A document that TOML holds (`Document.Storable`) is written, and what is read back from its text is
the document arranged: in every table with headers the plain entries have come to stand in front of
the tables and arrays of tables. Nothing else is different, every key finds the same, and the
document that was read has the very same text. A document is not written exactly if there is a null
in it below the root, or a date whose text is none.
-/

set_option autoImplicit false

namespace Sweep

/-- A document that TOML holds: no table names anything twice, there is no null, whole numbers are
signed, doubles are read back, the name of a date is found only in dates with their normal texts,
and the nesting is within the limit of the reader. The root is a table whatever its names are. -/
structure Document.Storable (doc : Document) : Prop where
  distinct : doc.DistinctNames
  noNull : ¬ doc.HasPart .null
  signed : ∀ n, doc.HasPart (.whole n) → n.isSigned = true
  doubles : ∀ x, doc.HasPart (.double x) → x.TomlReadsBack
  dates : ∀ entries, doc.HasPart (.table entries) → Value.datetimeField ∈ entries.map Prod.fst →
    ∃ stamp, Toml.Normal stamp ∧ Value.table entries = .ofDatetime stamp
  nests : ∀ items, Toml.Item.ofEntries doc.entries = .ok items →
    ∀ entry ∈ items, entry.2.Nests Toml.nestingLimit

namespace Toml

/-! ## The text as a whole -/

theorem Runs.documentText {items : List (String × Item)} {p q : Progress}
    (h : Runs (plainLines items ++ sections [] items) p q) : Runs (documentText items) p q := by
  rw [Toml.documentText.eq_def]
  split
  · next he =>
    rw [he] at h
    exact h.dropBlank
  · exact h

/-- A text that begins with a mark of byte order is cut into nothing. -/
theorem readStatements_of_mark {c : Char} (hc : c.toNat = 0xFEFF) (bound : Nat) (rest : List Char) :
    readStatements (bound + 1) (c :: rest) = none := by
  obtain rfl : c = '\uFEFF' := Char.toNat_inj.1 hc
  have hname : readName ('\uFEFF' :: rest) = none := by
    rw [readName, List.takeWhile_cons_of_neg (by decide)]
    all_goals exact fun _ he => absurd (List.cons.inj he).1 (by decide)
  have hkey : readKey ('\uFEFF' :: rest) = none := by
    rw [readKey, nestingLimit, readNames, skipSpace_of_head (by decide), hname]
  rw [readStatements, skipSpace_of_head (by decide)]
  simp only
  rw [if_neg (by decide), if_neg (by decide), readAssignment, readPair, hkey]
  rfl

theorem withoutMark_of_readStatements {cs : List Char} {statements : List Statement}
    (h : readStatements cs.length cs = some statements) : withoutMark cs = cs := by
  cases cs with
  | nil => rfl
  | cons c rest =>
    rw [withoutMark, if_neg]
    intro hc
    rw [List.length_cons, readStatements_of_mark hc] at h
    exact absurd h (by simp)

/-- **The items of a document are read back, arranged.** -/
theorem readItems?_documentText {items : List (String × Item)} (hd : (items.map Prod.fst).Nodup)
    (h : ∀ entry ∈ items, entry.2.Sectioned nestingLimit)

    (hresolve : Item.resolveEntries? (Item.arrangedEntries items) =
      some (Item.arrangedEntries items)) :
    readItems? (String.ofList (documentText items)) = some (Item.arrangedEntries items) := by
  have hfills : Fills [] items :=
    fills_of_adds hd (fun entry hm => inLine_of_sectioned (h entry hm)) fun entry hm hh =>
      adds_of_sectioned (h entry hm) hh (by simp) entry.1
  obtain ⟨drafts, opened, hf, hr⟩ := hfills DraftEntries.leads_nil
  obtain ⟨statements, hread, hfold⟩ := hr.documentText.readStatements
  rw [readItems?, String.toList_ofList]
  simp only [Option.bind_eq_bind]
  rw [withoutMark_of_readStatements hread, hread, Option.bind_some]
  have hstart : statements.foldlM Progress.step ⟨[], []⟩ = some ⟨drafts, opened⟩ := hfold
  rw [hstart, Option.bind_some, hf, hresolve]

/-! ## Documents -/

theorem encode_fails_iff (doc : Document) :
    (∃ why, FileFormat.toml.encode doc = .error why) ↔
      ∃ part, doc.HasPart part ∧ Unencodable part := by
  rw [FileFormat.encode]
  simp only [Except.map_eq_error_iff]
  rw [Item.ofEntries_fails_iff]
  constructor
  · rintro ⟨entry, hm, hf⟩
    obtain ⟨part, hp, hu⟩ := (Item.ofValue_fails_iff entry.2).1 hf
    exact ⟨part, ⟨entry, hm, hp⟩, hu⟩
  · rintro ⟨part, ⟨entry, hm, hp⟩, hu⟩
    exact ⟨entry, hm, (Item.ofValue_fails_iff entry.2).2 ⟨part, hp, hu⟩⟩

/-- A document that TOML holds becomes sound items that stand for it. -/
theorem exists_items {doc : Document} (h : doc.Storable) :
    ∃ items, Item.ofEntries doc.entries = .ok items ∧ Item.toEntries items = doc.entries ∧
      ∀ entry ∈ items, entry.2.Sound := by
  refine Value.Storable.exists_entries fun entry hm =>
    Value.Storable.exists_item ⟨?_, ?_, ?_, ?_, ?_⟩
  · exact fun entries hp => h.distinct.below entries ⟨entry, hm, hp⟩
  · exact fun hp => h.noNull ⟨entry, hm, hp⟩
  · exact fun n hp => h.signed n ⟨entry, hm, hp⟩
  · exact fun x hp => h.doubles x ⟨entry, hm, hp⟩
  · exact fun entries hp => h.dates entries ⟨entry, hm, hp⟩

theorem toEntries_arrangedEntries {items : List (String × Item)}
    (h : ∀ entry ∈ items, entry.2.Sound) :
    Item.toEntries (Item.arrangedEntries items) = Value.arrangedEntries (Item.toEntries items) := by
  rw [Item.toEntries_eq_map, Item.toEntries_eq_map]
  exact Entries.map_sectionsLast (fun entry hm => (h entry hm).hasHeaders_toValue) fun entry hm =>
    (h entry hm).toValue_arranged

theorem sound_arrangedEntries {items : List (String × Item)} (h : ∀ entry ∈ items, entry.2.Sound) :
    ∀ entry ∈ Item.arrangedEntries items, entry.2.Sound := by
  intro entry hm
  rcases Entries.mem_sectionsLast hm with ⟨he, -⟩ | ⟨origin, ho, -, rfl⟩
  · exact h entry he
  · exact (h origin ho).arranged

theorem documentText_arrangedEntries {items : List (String × Item)}
    (h : ∀ entry ∈ items, entry.2.Sound) :
    documentText (Item.arrangedEntries items) = documentText items := by
  have hlines :
      plainLines (Item.arrangedEntries items) ++ sections [] (Item.arrangedEntries items) =
      plainLines items ++ sections [] items := by
    rw [plainLines_arrangedEntries, sections_arrangedEntries [] fun entry hm =>
      (h entry hm).itemSections_arranged]
  rw [documentText, documentText, hlines]

/-- **A document that TOML holds is written and read back, arranged.** Every key finds in it what it
found before, with the same kinds of numbers and the same order of items, and writing it once more
gives the same text. A document is not written exactly if a null or a date without a date's text
lies in it. -/
theorem decode_encode_arranged (doc : Document) :
    (doc.Storable → ∃ text, FileFormat.toml.encode doc = .ok text ∧
      FileFormat.toml.decode? text = some doc.arranged ∧
      FileFormat.toml.encode doc.arranged = .ok text ∧
      ∀ key, doc.arranged.get key = (doc.get key).map Value.arranged) ∧
    ((∃ why, FileFormat.toml.encode doc = .error why) ↔
      ∃ part, doc.HasPart part ∧ Unencodable part) := by
  refine ⟨fun h => ?_, encode_fails_iff doc⟩
  obtain ⟨items, hof, hto, hs⟩ := exists_items h
  have hnames : (items.map Prod.fst).Nodup := by
    rw [← Item.names_toEntries, hto]
    exact h.distinct.root
  have hsound := sound_arrangedEntries hs
  have hback : Item.toEntries (Item.arrangedEntries items) = doc.arranged.entries := by
    rw [toEntries_arrangedEntries hs, hto]
    rfl
  refine ⟨String.ofList (documentText items), ?_, ?_, ?_, Document.get_arranged h.distinct⟩
  · rw [FileFormat.encode, hof]
    rfl
  · have hread :=
      readItems?_documentText hnames (fun entry hm =>
        (hs entry hm).sectioned (h.nests items hof entry hm))
      (Item.resolveEntries?_of_forall fun entry hm => (hsound entry hm).resolve?)
    rw [FileFormat.decode?, readTable?, hread, Option.map_some, hback]
    rfl
  · -- arranging is already done in the text of the items, so the arranged items have the same one
    have hagain := Item.ofEntries_toEntries fun entry hm => (hsound entry hm).ofValue_toValue
    rw [hback] at hagain
    rw [FileFormat.encode, hagain]
    exact congrArg (fun cs => Except.ok (String.ofList cs)) (documentText_arrangedEntries hs)

/-- The double nearest to three tenths. -/
def threeTenths : Double := ⟨false, ⟨1021, by decide⟩, ⟨0x3333333333333, by decide⟩⟩

/-- A document with a table in front of plain entries, a date, an array of tables of which one is
empty, a table in line, a table that needs no header of its own, and texts and names that have to be
quoted. -/
def journal : Document :=
  ⟨[("owner", .table [("said \"yes\"", .text "it's\n\"\"\"so\"\"\"")]),
    ("when", .ofDatetime "1979-05-27T07:32:00Z"),
    ("runs", .list [.table [("limits", .table []),
      ("seed", .whole ⟨-1, by decide, by decide⟩)], .table []]),
    ("mixed", .list [.text "", .table [("a b", .bool true)]]),
    ("outer", .table [("inner", .table [("rate", .double threeTenths)])])]⟩

theorem isPart_journal {part : Value} (h : journal.HasPart part) :
    part ∈ [Value.table [("said \"yes\"", .text "it's\n\"\"\"so\"\"\"")],
      .text "it's\n\"\"\"so\"\"\"", .ofDatetime "1979-05-27T07:32:00Z",
      .text "1979-05-27T07:32:00Z",
      .list [.table [("limits", .table []),
        ("seed", .whole ⟨-1, by decide, by decide⟩)], .table []],
      .table [("limits", .table []), ("seed", .whole ⟨-1, by decide, by decide⟩)], .table [],
      .whole ⟨-1, by decide, by decide⟩, .list [.text "", .table [("a b", .bool true)]], .text "",
      .table [("a b", .bool true)], .bool true,
      .table [("inner", .table [("rate", .double threeTenths)])],
      .table [("rate", .double threeTenths)], .double threeTenths] := by
  obtain ⟨entry, hm, hp⟩ := h
  simp only [journal, List.mem_cons, List.not_mem_nil, or_false] at hm ⊢
  rcases hm with rfl | rfl | rfl | rfl | rfl <;>
    simp [Value.ofDatetime, Value.isPart_list_iff, Value.isPart_table_iff,
      Value.isPart_scalar_iff] at hp ⊢ <;>
    tauto

theorem tables_of_journal {entries : List (String × Value)} (h : journal.HasPart (.table entries)) :
    entries ∈ [[("said \"yes\"", Value.text "it's\n\"\"\"so\"\"\"")],
      [(Value.datetimeField, .text "1979-05-27T07:32:00Z")],
      [("limits", .table []), ("seed", .whole ⟨-1, by decide, by decide⟩)], [],
      [("a b", .bool true)], [("inner", .table [("rate", .double threeTenths)])],
      [("rate", .double threeTenths)]] := by
  have hparts := isPart_journal h
  simpa only [Value.ofDatetime, List.mem_cons, Value.table.injEq, reduceCtorEq, List.not_mem_nil,
    or_false, false_or]
    using hparts

theorem nests_journal {items : List (String × Item)}
    (h : Item.ofEntries journal.entries = .ok items) :
    ∀ entry ∈ items, entry.2.Nests nestingLimit := by
  have hitems : Item.ofEntries journal.entries = .ok
      [("owner", .table [("said \"yes\"", .text "it's\n\"\"\"so\"\"\"")]),
        ("when", .datetime (.both ⟨1979, 5, 27⟩ ⟨7, 32, 0, 0⟩ (some .universal))),
        ("runs", .list [.table [("limits", .table []), ("seed", .whole (-1))], .table []]),
        ("mixed", .list [.text "", .table [("a b", .bool true)]]),
        ("outer", .table [("inner", .table [("rate", .double threeTenths)])])] := rfl
  rw [hitems] at h
  cases h
  have hscalar :
      ∀ {names : Nat} {item : Item}, item.hasHeaders = false → (∀ items, item ≠ .list items) →
      (∀ entries, item ≠ .table entries) → item.Nests names :=
        fun hh hl ht => .inLine hh (.scalar hl ht)
  intro entry hm
  simp only [List.mem_cons, List.not_mem_nil, or_false] at hm
  rcases hm with rfl | rfl | rfl | rfl | rfl
  · refine .table fun entry hm => ?_
    rw [List.mem_singleton.1 hm]
    exact hscalar rfl (by simp) (by simp)
  · exact hscalar rfl (by simp) (by simp)
  · refine .elements (List.cons_ne_nil [("limits", .table []), ("seed", .whole (-1))] [[]])
      fun entries he entry hm => ?_
    rcases List.mem_pair.1 he with rfl | rfl
    · rcases List.mem_pair.1 hm with rfl | rfl
      · exact .table fun _ hm => absurd hm List.not_mem_nil
      · exact hscalar rfl (by simp) (by simp)
    · exact absurd hm List.not_mem_nil
  · refine .inLine rfl (.list fun item hm => ?_)
    rcases List.mem_pair.1 hm with rfl | rfl
    · exact .scalar (by simp) (by simp)
    · refine .table fun entry hm => ?_
      rw [List.mem_singleton.1 hm]
      exact .scalar (by simp) (by simp)
  · refine .table fun entry hm => ?_
    rw [List.mem_singleton.1 hm]
    refine .table fun entry hm => ?_
    rw [List.mem_singleton.1 hm]
    exact hscalar rfl (by simp) (by simp)

theorem storable_journal : journal.Storable where
  distinct := by
    refine ⟨by decide, fun entries hp => ?_⟩
    have hcases := tables_of_journal hp
    simp only [List.mem_cons, List.not_mem_nil, or_false] at hcases
    rcases hcases with rfl | rfl | rfl | rfl | rfl | rfl | rfl <;> decide
  noNull hp := by
    have hcases := isPart_journal hp
    simp [Value.ofDatetime] at hcases
  signed n hp := by
    have hcases := isPart_journal hp
    simp only [Value.ofDatetime, List.mem_cons, Value.whole.injEq, reduceCtorEq, List.not_mem_nil,
      or_false, false_or]
      at hcases
    rw [hcases]
    rfl
  doubles x _ := tomlReadsBack x
  dates entries hp hmark := by
    have hcases := tables_of_journal hp
    simp only [List.mem_cons, List.not_mem_nil, or_false] at hcases
    rcases hcases with rfl | rfl | rfl | rfl | rfl | rfl | rfl
    case inr.inl => exact ⟨"1979-05-27T07:32:00Z",
      ⟨.both ⟨1979, 5, 27⟩ ⟨7, 32, 0, 0⟩ (some .universal), rfl, rfl⟩, rfl⟩
    all_goals exact absurd hmark (by decide)
  nests _ hof := nests_journal hof

/-- The owner comes to stand behind the plain entries, and the seed in front of the limits. -/
theorem decode_encode_journal :
    journal.Storable ∧ ∃ text, FileFormat.toml.encode journal = .ok text ∧
      FileFormat.toml.decode? text = some journal.arranged ∧
      FileFormat.toml.encode journal.arranged = .ok text ∧
      (∀ key, journal.arranged.get key = (journal.get key).map Value.arranged) ∧
      journal.arranged.entries.map Prod.fst = ["when", "mixed", "owner", "runs", "outer"] := by
  obtain ⟨text, hencode, hdecode, hagain, hget⟩ :=
    (decode_encode_arranged journal).1 storable_journal
  exact ⟨storable_journal, text, hencode, hdecode, hagain, hget, rfl⟩

end Toml

end Sweep
