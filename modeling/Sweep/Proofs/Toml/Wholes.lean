import Sweep.Proofs.Document.Places
import Sweep.Proofs.Toml.Dates
import Sweep.Proofs.Toml.RoundTrip

/-!
# Whole numbers, written in TOML and read back

A document can be written in TOML without being one that TOML holds: dates may have other texts than
their normal ones, and whole numbers may be unsigned ones past the signed range, which become
doubles. Whatever is written is read back (`exists_decode_of_encode`), and so at the place of every
whole number there is a number again: **the same whole number if it is a signed one, and the double
next to it if it is not** (`wholes_read_back`).

The conditions on the document are those without which its text stands for something else or for
nothing: no table names anything twice, the name of a date is found in dates only, and the nesting
is within the limit of the reader.
-/

set_option autoImplicit false

namespace Sweep

/-- A document whose text can be read back: no table names anything twice, the name of a date is
found only in dates, and the nesting is within the limit of the reader. -/
structure Document.Recoverable (doc : Document) : Prop where
  distinct : doc.DistinctNames
  dates : ∀ entries, doc.HasPart (.table entries) → Value.datetimeField ∈ entries.map Prod.fst →
    ∃ stamp, Value.table entries = .ofDatetime stamp
  nests : ∀ items, Toml.Item.ofEntries doc.entries = .ok items →
    ∀ entry ∈ items, entry.2.Nests Toml.nestingLimit

namespace Toml

namespace Item

/-! ## Items of values -/

/-- What a name finds becomes what the name finds among the items. -/
theorem find?_of_ofEntries {entries : List (String × Value)} {items : List (String × Item)}
    (h : ofEntries entries = .ok items) {name : String} {value : Value}
    (hf : Entries.find? name entries = some value) :
    ∃ item, ofValue value = .ok item ∧
      Entries.find? name (toEntries items) = some item.toValue := by
  have hall := forall₂_of_ofEntries h
  clear h
  induction hall with
  | nil => cases hf
  | @cons entry item entries items hfirst _ ih =>
    rw [Entries.find?] at hf
    rw [toEntries, Entries.find?, ← hfirst.1]
    split at hf
    · next he =>
      cases hf
      rw [if_pos he]
      exact ⟨item.2, hfirst.2, rfl⟩
    · next hne =>
      rw [if_neg hne]
      exact ih hf

/-- What a whole number is read back as. -/
theorem toValue_ofWhole (n : Whole) :
    (ofWhole n).toValue = if n.isSigned then .whole n else .double (.ofInt n.value) := by
  rw [ofWhole]
  split
  · rw [toValue, Whole.ofInt?, dif_pos ⟨n.lower, n.upper⟩]
    rfl
  · rfl

theorem hasHeaders_ofWhole (n : Whole) : (ofWhole n).toValue.hasHeaders = false := by
  rw [toValue_ofWhole]
  split <;> rfl

/-- **At the place of a whole number there is what the number becomes.** -/
theorem at?_toValue {path : List Value.Step} {v : Value} {item : Item} (h : ofValue v = .ok item)
    {n : Whole} (hn : v.at? path = some (.whole n)) :
    item.toValue.at? path = some (ofWhole n).toValue := by
  induction path generalizing v item with
  | nil =>
    cases hn
    cases h
    rfl
  | cons step rest ih =>
    cases step with
    | name name =>
      obtain ⟨entries, inner, rfl, hf, hw⟩ := Value.at?_name_eq_some_iff.1 hn
      obtain ⟨_, _, hd, -, -⟩ | ⟨-, items, rfl, hitems⟩ := cases_of_ofValue_table h
      · -- a date holds its text and no number
        cases (Value.datetime?_eq_some_iff _ _).1 hd
        rcases Value.isPart_date_iff.1 (Value.isPart_of_at? hn) with he | he <;> cases he
      · obtain ⟨item, hitem, hfind⟩ := find?_of_ofEntries hitems hf
        rw [toValue]
        exact Value.at?_name_eq_some_iff.2 ⟨_, _, rfl, hfind, ih hitem hw⟩
    | index index =>
      obtain ⟨values, inner, rfl, hi, hw⟩ := Value.at?_index_eq_some_iff.1 hn
      obtain ⟨items, rfl, hall⟩ := items_of_ofValue_list h
      obtain ⟨hvalues, rfl⟩ := List.getElem?_eq_some_iff.1 hi
      have hlength : index < items.length := hall.length_eq ▸ hvalues
      refine Value.at?_index_eq_some_iff.2 ⟨toValues items, items[index].toValue, rfl, ?_,
        ih (hall.get hvalues hlength) hw⟩
      rw [toValues_eq_map, List.getElem?_map, List.getElem?_eq_getElem hlength]
      rfl

/-! ## Sound items -/

/-- No table in a value names anything twice, and the name of a date is found only in dates. -/
structure Regular (v : Value) : Prop where
  distinct : ∀ entries, (Value.table entries).IsPart v → (entries.map Prod.fst).Nodup
  dates : ∀ entries, (Value.table entries).IsPart v → Value.datetimeField ∈ entries.map Prod.fst →
    ∃ stamp, Value.table entries = .ofDatetime stamp

theorem sound_ofWhole (n : Whole) : (ofWhole n).Sound := by
  rw [ofWhole]
  split
  · next hs => exact .whole n.lower (of_decide_eq_true hs)
  · exact .double (tomlReadsBack _)

/-- **What becomes of a value is read back from its text**, if the value is regular. -/
theorem sound_of_ofValue {v : Value} (hr : Regular v) {item : Item} (h : ofValue v = .ok item) :
    item.Sound := by
  induction v generalizing item with
  | null => cases h
  | bool b =>
    cases h
    exact .bool b
  | whole n =>
    cases h
    exact sound_ofWhole n
  | double x =>
    cases h
    exact .double (tomlReadsBack x)
  | text s =>
    cases h
    exact .text s
  | list values ih =>
    obtain ⟨items, rfl, hitems⟩ := items_of_ofValue_list h
    refine .list fun item hm => ?_
    obtain ⟨value, hv, hof⟩ := exists_of_forall₂ hitems hm
    exact ih value hv ⟨fun entries hp => hr.distinct entries (.item hv hp), fun entries hp =>
      hr.dates entries (.item hv hp)⟩ hof
  | table entries ih =>
    obtain ⟨_, d, -, hof, rfl⟩ | ⟨hd, items, rfl, hitems⟩ := cases_of_ofValue_table h
    · exact .datetime (ofText_text (proper_of_ofText hof))
    · have hnames := names_of_ofEntries hitems
      refine .table (hnames ▸ hr.distinct entries .self) ?_ fun item hm => ?_
      · rw [hnames]
        intro hmark
        obtain ⟨stamp, he⟩ := hr.dates entries .self hmark
        rw [(Value.datetime?_eq_some_iff _ _).2 he] at hd
        cases hd
      · obtain ⟨entry, hv, -, hof⟩ := exists_of_forall₂ (forall₂_of_ofEntries hitems) hm
        exact ih entry hv ⟨fun inner hp => hr.distinct inner (.entry hv hp), fun inner hp =>
          hr.dates inner (.entry hv hp)⟩ hof

/-- No table of the value of a sound item names anything twice. -/
theorem Sound.distinct {item : Item} (h : item.Sound) {entries : List (String × Value)}
    (hp : (Value.table entries).IsPart item.toValue) : (entries.map Prod.fst).Nodup := by
  induction h with
  | text | double | bool => cases hp
  | @whole n _ _ =>
    rw [toValue] at hp
    cases hn : Whole.ofInt? n with
    | none =>
      rw [hn] at hp
      cases hp
    | some whole =>
      rw [hn] at hp
      cases hp
  | datetime =>
    rcases Value.isPart_date_iff.1 hp with he | he
    · cases he
      exact List.nodup_singleton _
    · cases he
  | list _ ih =>
    rw [toValue, toValues_eq_map] at hp
    rcases Value.isPart_list_iff.1 hp with he | ⟨value, hm, hp⟩
    · cases he
    · obtain ⟨item, hi, rfl⟩ := List.mem_map.1 hm
      exact ih item hi hp
  | table hnames _ _ ih =>
    rw [toValue] at hp
    rcases Value.isPart_table_iff.1 hp with he | ⟨entry, hm, hp⟩
    · cases he
      rw [names_toEntries]
      exact hnames
    · rw [toEntries_eq_map] at hm
      obtain ⟨origin, ho, rfl⟩ := List.mem_map.1 hm
      exact ih origin ho hp

end Item

end Toml

/-! ## Arranged values -/

/-- **What needs no header stands at its place still when a value is arranged.** -/
theorem Value.at?_arranged {path : List Step} {v w : Value}
    (hd : ∀ entries, (Value.table entries).IsPart v → (entries.map Prod.fst).Nodup)
    (hw : w.hasHeaders = false) (h : v.at? path = some w) : v.arranged.at? path = some w := by
  induction path generalizing v with
  | nil =>
    cases h
    rw [arranged_of_plain hw]
    rfl
  | cons step rest ih =>
    cases hh : v.hasHeaders with
    | false =>
      rw [arranged_of_plain hh]
      exact h
    | true =>
      cases step with
      | name name =>
        obtain ⟨entries, inner, rfl, hf, hinner⟩ := at?_name_eq_some_iff.1 h
        have hfind :=
          Entries.find?_sectionsLast (fun _ => arranged_of_plain) (hd entries .self) name
        rw [hf, Option.map_some] at hfind
        rw [arranged_table hh]
        refine at?_name_eq_some_iff.2 ⟨_, _, rfl, hfind, ih (fun deeper hp => ?_) hinner⟩
        exact hd deeper (.entry (Entries.mem_of_find? hf) hp)
      | index index =>
        obtain ⟨items, inner, rfl, hi, hinner⟩ := at?_index_eq_some_iff.1 h
        rw [arranged_list hh]
        refine at?_index_eq_some_iff.2 ⟨_, inner.arranged, rfl, ?_, ih (fun deeper hp => ?_) hinner⟩
        · rw [List.getElem?_map, hi]
          rfl
        · exact hd deeper (.item (List.mem_of_getElem? hi) hp)

namespace Toml

/-! ## Documents -/

/-- **What is written is read back**: the items that the document became, arranged. -/
theorem exists_decode_of_encode {doc : Document} (h : doc.Recoverable) {text : String}
    (he : FileFormat.toml.encode doc = .ok text) :
    ∃ items, Item.ofEntries doc.entries = .ok items ∧ (items.map Prod.fst).Nodup ∧
      (∀ entry ∈ items, entry.2.Sound) ∧
      FileFormat.toml.decode? text = some ⟨Value.arrangedEntries (Item.toEntries items)⟩ := by
  rw [FileFormat.encode] at he
  obtain ⟨items, hof, rfl⟩ := Except.map_eq_ok_iff.1 he
  have hs : ∀ entry ∈ items, entry.2.Sound := by
    intro item hm
    obtain ⟨entry, hv, -, hitem⟩ := Item.exists_of_forall₂ (Item.forall₂_of_ofEntries hof) hm
    exact Item.sound_of_ofValue ⟨fun entries hp => h.distinct.below entries ⟨entry, hv, hp⟩,
      fun entries hp => h.dates entries ⟨entry, hv, hp⟩⟩ hitem
  have hnames : (items.map Prod.fst).Nodup := Item.names_of_ofEntries hof ▸ h.distinct.root
  have hread :=
    readItems?_documentText hnames (fun entry hm =>
      (hs entry hm).sectioned (h.nests items hof entry hm))
    (Item.resolveEntries?_of_forall fun entry hm => (sound_arrangedEntries hs entry hm).resolve?)
  refine ⟨items, hof, hnames, hs, ?_⟩
  rw [FileFormat.decode?, readTable?, hread, Option.map_some, toEntries_arrangedEntries hs]
  rfl

/-- **Every whole number of a document that is written is read back at its place**: as itself if
signed 64 bits hold it, and as the double next to it if they do not. -/
theorem wholes_read_back {doc : Document} (h : doc.Recoverable) {text : String}
    (he : FileFormat.toml.encode doc = .ok text) :
    ∃ back, FileFormat.toml.decode? text = some back ∧ ∀ path n, doc.at? path = some (.whole n) →
      back.at? path = some (if n.isSigned then .whole n else .double (.ofInt n.value)) := by
  obtain ⟨items, hof, hnames, hs, hdecode⟩ := exists_decode_of_encode h he
  refine ⟨_, hdecode, fun path n hn => ?_⟩
  rw [← Item.toValue_ofWhole]
  -- the root is no part of the document, so its first step is taken by hand
  cases path with
  | nil => cases hn
  | cons step rest =>
    cases step with
    | index index =>
      obtain ⟨_, _, ht, -, -⟩ := Value.at?_index_eq_some_iff.1 hn
      cases ht
    | name name =>
      obtain ⟨entries, inner, ht, hf, hw⟩ := Value.at?_name_eq_some_iff.1 hn
      cases ht
      obtain ⟨item, hitem, hfind⟩ := Item.find?_of_ofEntries hof hf
      have hm := Entries.mem_of_find? hfind
      rw [Item.toEntries_eq_map] at hm
      obtain ⟨origin, ho, heq⟩ := List.mem_map.1 hm
      have hsound :
          ∀ entries, (Value.table entries).IsPart item.toValue → (entries.map Prod.fst).Nodup := by
        intro entries hp
        have hvalue : origin.2.toValue = item.toValue := congrArg Prod.snd heq
        rw [← hvalue] at hp
        exact (hs origin ho).distinct hp
      have hdistinct : ((Item.toEntries items).map Prod.fst).Nodup := by
        rw [Item.names_toEntries]
        exact hnames
      have hsections := Entries.find?_sectionsLast (f := Value.arranged)
        (fun _ => Value.arranged_of_plain) hdistinct name
      rw [hfind, Option.map_some] at hsections
      exact Value.at?_name_eq_some_iff.2
        ⟨_, _, rfl, hsections,
          Value.at?_arranged hsound (Item.hasHeaders_ofWhole n) (Item.at?_toValue hitem hw)⟩

/-- The largest unsigned number of 64 bits. -/
def largest : Whole := ⟨2 ^ 64 - 1, by decide, by decide⟩

def minusTwo : Whole := ⟨-2, by decide, by decide⟩

/-- A document with a signed and an unsigned whole number in an array of tables. -/
def seeds : Document :=
  ⟨[("runs", .list [.table [("seed", .whole largest)], .table [("seed", .whole minusTwo)]])]⟩

theorem tables_of_seeds {entries : List (String × Value)} (h : seeds.HasPart (.table entries)) :
    entries.map Prod.fst = ["seed"] := by
  obtain ⟨entry, hm, hp⟩ := h
  cases List.mem_singleton.1 hm
  rcases Value.isPart_list_iff.1 hp with he | ⟨item, hi, hp⟩
  · cases he
  · rcases List.mem_pair.1 hi with rfl | rfl
    all_goals
      rcases Value.isPart_table_iff.1 hp with he | ⟨inner, hm, hp⟩
      · cases he
        rfl
      · cases List.mem_singleton.1 hm
        cases hp

theorem recoverable_seeds : seeds.Recoverable where
  distinct := ⟨by decide, fun entries hp => by rw [tables_of_seeds hp]; decide⟩
  dates entries hp hmark := by
    rw [tables_of_seeds hp] at hmark
    exact absurd hmark (by decide)
  nests items hof entry hm := by
    have hitems :
      Item.ofEntries seeds.entries = .ok [("runs", .list ([[("seed", Item.ofWhole largest)],
      [("seed", Item.ofWhole minusTwo)]].map .table))] := rfl
    rw [hitems] at hof
    cases hof
    cases List.mem_singleton.1 hm
    refine .elements (List.cons_ne_nil _ _) fun entries he entry hm => ?_
    rcases List.mem_pair.1 he with rfl | rfl
    all_goals
      cases List.mem_singleton.1 hm
      exact .inLine rfl (.scalar (fun _ he => by cases he) fun _ he => by cases he)

/-- The signed number is read back, the unsigned one as a double. -/
theorem wholes_read_back_seeds :
    seeds.Recoverable ∧ ∃ text, FileFormat.toml.encode seeds = .ok text ∧
      ∃ back, FileFormat.toml.decode? text = some back ∧
        back.at? [.name "runs", .index 1, .name "seed"] = some (.whole minusTwo) ∧
      back.at? [.name "runs", .index 0, .name "seed"] = some (.double (.ofInt largest.value)) := by
  refine ⟨recoverable_seeds, _, rfl, ?_⟩
  obtain ⟨back, hdecode, hwholes⟩ := wholes_read_back recoverable_seeds rfl
  exact ⟨back, hdecode, hwholes [.name "runs", .index 1, .name "seed"] minusTwo rfl,
    hwholes [.name "runs", .index 0, .name "seed"] largest rfl⟩

/-- **A whole number that TOML does not hold is written all the same**, as another number. -/
theorem encode_largest :
    FileFormat.toml.encode ⟨[("seed", .whole largest)]⟩ =
      .ok "seed = 18446744073709552000.0\n" := by
  decide +kernel

end Toml

end Sweep
