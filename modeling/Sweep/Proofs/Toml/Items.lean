import Sweep.Proofs.Except
import Sweep.Proofs.Toml.Arrangement
import Sweep.Proofs.Toml.Inline

/-!
# Values and items

What a value loses on its way to TOML, and what it does not. A value fails to become an item at a
null and at a date whose text is none, and at nothing else (`ofValue_fails_iff`). If moreover its
whole numbers are signed and its dates have their normal texts, it becomes an item that stands for
the very same value (`Value.Storable.exists_item`), and such an item is **sound**: it comes out of
its own text unchanged, has no table that would be taken for a date, and stays sound when it is
arranged.
-/

set_option autoImplicit false

namespace Sweep

namespace Toml

/-- The text of a date or time in its normal form. -/
def Normal (stamp : String) :
    Prop := ∃ d, Datetime.ofText stamp.toList = .ok d ∧ String.ofList d.text = stamp

/-! ## What has no item -/

/-- A null, or a date whose text is none. -/
def Unencodable (part : Value) : Prop :=
  part = .null ∨
    ∃ stamp why, part.datetime? = some stamp ∧ Datetime.ofText stamp.toList = .error why

namespace Item

/-- What stands in the second of two related lists is related to something in the first. -/
theorem exists_of_forall₂ {α β : Type} {R : α → β → Prop} {xs : List α} {ys : List β}
    (h : List.Forall₂ R xs ys) {y : β} (hy : y ∈ ys) : ∃ x ∈ xs, R x y := by
  induction h with
  | nil => cases hy
  | cons hfirst _ ih =>
    rcases List.mem_cons.1 hy with rfl | hy
    · exact ⟨_, List.mem_cons_self, hfirst⟩
    · obtain ⟨x, hx, hr⟩ := ih hy
      exact ⟨x, List.mem_cons_of_mem _ hx, hr⟩

theorem forall₂_of_ofValues {values : List Value} {items : List Item}
    (h : ofValues values = .ok items) :
    List.Forall₂ (fun value item => ofValue value = .ok item) values items := by
  induction values generalizing items with
  | nil =>
    cases h
    exact .nil
  | cons value rest ih =>
    rw [ofValues] at h
    split at h
    · cases h
    · next item hitem =>
      obtain ⟨more, hmore, rfl⟩ := Except.map_eq_ok_iff.1 h
      exact .cons hitem (ih hmore)

theorem forall₂_of_ofEntries {entries : List (String × Value)} {items : List (String × Item)}
    (h : ofEntries entries = .ok items) :
    List.Forall₂ (fun entry item => entry.1 = item.1 ∧ ofValue entry.2 = .ok item.2)
      entries items := by
  induction entries generalizing items with
  | nil =>
    cases h
    exact .nil
  | cons entry rest ih =>
    rw [ofEntries] at h
    split at h
    · cases h
    · next item hitem =>
      obtain ⟨more, hmore, rfl⟩ := Except.map_eq_ok_iff.1 h
      exact .cons ⟨rfl, hitem⟩ (ih hmore)

theorem names_of_ofEntries {entries : List (String × Value)} {items : List (String × Item)}
    (h : ofEntries entries = .ok items) : items.map Prod.fst = entries.map Prod.fst := by
  have hall := forall₂_of_ofEntries h
  clear h
  induction hall with
  | nil => rfl
  | cons hfirst _ ih => rw [List.map_cons, List.map_cons, ih, hfirst.1]

/-- A list becomes the list of what its items become. -/
theorem items_of_ofValue_list {values : List Value} {item : Item}
    (h : ofValue (.list values) = .ok item) :
    ∃ items, item = .list items ∧
      List.Forall₂ (fun value item => ofValue value = .ok item) values items := by
  rw [ofValue] at h
  obtain ⟨items, hitems, rfl⟩ := Except.map_eq_ok_iff.1 h
  exact ⟨items, rfl, forall₂_of_ofValues hitems⟩

/-- A table becomes the date that its text tells if it is one, and otherwise the table of what its
entries become. -/
theorem cases_of_ofValue_table {entries : List (String × Value)} {item : Item}
    (h : ofValue (.table entries) = .ok item) :
    (∃ stamp d, (Value.table entries).datetime? = some stamp ∧
      Datetime.ofText stamp.toList = .ok d ∧ item = .datetime d) ∨
      (Value.table entries).datetime? = none ∧
      ∃ items, item = .table items ∧ ofEntries entries = .ok items := by
  rw [ofValue] at h
  split at h
  · next stamp hd =>
    rw [ofStamp] at h
    split at h
    · next d hof =>
      cases h
      exact .inl ⟨stamp, d, hd, hof, rfl⟩
    · cases h
  · next hd =>
    obtain ⟨items, hitems, rfl⟩ := Except.map_eq_ok_iff.1 h
    exact .inr ⟨hd, items, rfl, hitems⟩

theorem ofValues_fails_iff {values : List Value} :
    (∃ why, ofValues values = .error why) ↔
      ∃ value ∈ values, ∃ why, ofValue value = .error why := by
  induction values with
  | nil => simp [ofValues]
  | cons value rest ih =>
    rw [ofValues]
    simp only [List.exists_mem_cons_iff]
    rw [← ih]
    cases ofValue value with
    | error why => simp
    | ok item => cases ofValues rest <;> simp [Except.map]

theorem ofEntries_fails_iff {entries : List (String × Value)} :
    (∃ why, ofEntries entries = .error why) ↔
      ∃ entry ∈ entries, ∃ why, ofValue entry.2 = .error why := by
  induction entries with
  | nil => simp [ofEntries]
  | cons entry rest ih =>
    rw [ofEntries]
    simp only [List.exists_mem_cons_iff]
    rw [← ih]
    cases ofValue entry.2 with
    | error why => simp
    | ok item => cases ofEntries rest <;> simp [Except.map]

/-- A date has no item exactly if its text is none of a date. -/
theorem ofStamp_fails_iff {entries : List (String × Value)} {stamp : String}
    (hd : (Value.table entries).datetime? = some stamp) :
    (∃ why, ofStamp stamp = .error why) ↔
      ∃ part : Value, part.IsPart (.table entries) ∧ Unencodable part := by
  have hstamp : (∃ why, ofStamp stamp = .error why) ↔
      ∃ why, Datetime.ofText stamp.toList = .error why := by
    rw [ofStamp]
    cases Datetime.ofText stamp.toList <;> simp
  rw [hstamp]
  constructor
  · rintro ⟨why, hw⟩
    exact ⟨_, .self, .inr ⟨stamp, why, hd, hw⟩⟩
  · rintro ⟨part, hp, hu⟩
    cases (Value.datetime?_eq_some_iff _ _).1 hd
    rcases Value.isPart_date_iff.1 hp with rfl | rfl
    · rcases hu with hu | ⟨_, why, hd', hw⟩
      · cases hu
      · cases hd.symm.trans hd'
        exact ⟨why, hw⟩
    · rcases hu with hu | ⟨_, _, hd', -⟩
      · cases hu
      · cases hd'

theorem not_unencodable {v : Value} (hnull : v ≠ .null) (hdate : v.datetime? = none) :
    ¬ Unencodable v := by
  rintro (hu | ⟨stamp, why, hd, -⟩)
  · exact hnull hu
  · rw [hdate] at hd
    cases hd

/-- **A value has no item exactly if a part of it has none.** -/
theorem ofValue_fails_iff (v : Value) :
    (∃ why, ofValue v = .error why) ↔ ∃ part : Value, part.IsPart v ∧ Unencodable part := by
  have hscalar : ∀ v : Value, (∀ items, v ≠ .list items) → (∀ entries, v ≠ .table entries) →
      ∀ P : Value → Prop, (∃ part : Value, part.IsPart v ∧ P part) ↔ P v := by
    intro v hl ht P
    simp only [Value.isPart_scalar_iff hl ht, exists_eq_left]
  induction v with
  | null => exact ⟨fun _ => ⟨.null, .self, .inl rfl⟩, fun _ => ⟨_, rfl⟩⟩
  | bool | whole | double | text =>
    rw [hscalar _ (fun _ he => by cases he) (fun _ he => by cases he)]
    simp [ofValue, Unencodable, Value.datetime?]
  | list items ih =>
    rw [ofValue]
    simp only [Except.map_eq_error_iff]
    rw [ofValues_fails_iff]
    constructor
    · rintro ⟨item, hm, hf⟩
      obtain ⟨part, hp, hu⟩ := (ih item hm).1 hf
      exact ⟨part, .item hm hp, hu⟩
    · rintro ⟨part, hp, hu⟩
      rcases Value.isPart_list_iff.1 hp with rfl | ⟨item, hm, hp⟩
      · exact absurd hu (not_unencodable (by simp) rfl)
      · exact ⟨item, hm, (ih item hm).2 ⟨part, hp, hu⟩⟩
  | table entries ih =>
    rw [ofValue]
    cases hd : (Value.table entries).datetime? with
    | some stamp => exact ofStamp_fails_iff hd
    | none =>
      simp only [Except.map_eq_error_iff]
      rw [ofEntries_fails_iff]
      constructor
      · rintro ⟨entry, hm, hf⟩
        obtain ⟨part, hp, hu⟩ := (ih entry hm).1 hf
        exact ⟨part, .entry hm hp, hu⟩
      · rintro ⟨part, hp, hu⟩
        rcases Value.isPart_table_iff.1 hp with rfl | ⟨entry, hm, hp⟩
        · exact absurd hu (not_unencodable (by simp) hd)
        · exact ⟨entry, hm, (ih entry hm).2 ⟨part, hp, hu⟩⟩

/-! ## Items that stand for their values -/

/-- An item that is read back from its text and stands for one value: its numbers and dates are read
back, and its tables name nothing twice and nothing as a date does. -/
inductive Sound : Item → Prop where
  | text (s : String) : Sound (.text s)
  | whole {n : Int} : -0x8000000000000000 ≤ n → n < 0x8000000000000000 → Sound (.whole n)
  | double {x : Double} : x.TomlReadsBack → Sound (.double x)
  | bool (b : Bool) : Sound (.bool b)
  | datetime {d : Datetime} : Datetime.ofText d.text = .ok d → Sound (.datetime d)
  | list {items : List Item} : (∀ item ∈ items, Sound item) → Sound (.list items)
  | table {entries : List (String × Item)} : (entries.map Prod.fst).Nodup →
      Value.datetimeField ∉ entries.map Prod.fst → (∀ entry ∈ entries, Sound entry.2) →
      Sound (.table entries)

theorem toValues_eq_map (items : List Item) : toValues items = items.map toValue := by
  induction items with
  | nil => rfl
  | cons item rest ih => rw [toValues, List.map_cons, ih]

theorem toEntries_eq_map (entries : List (String × Item)) :
    toEntries entries = entries.map fun entry => (entry.1, toValue entry.2) := by
  induction entries with
  | nil => rfl
  | cons entry rest ih => rw [toEntries, List.map_cons, ih]

theorem names_toEntries (entries : List (String × Item)) :
    (toEntries entries).map Prod.fst = entries.map Prod.fst := by
  rw [toEntries_eq_map, List.map_map]
  rfl

theorem ofValues_map_toValue {items : List Item}
    (h : ∀ item ∈ items, ofValue item.toValue = .ok item) :
    ofValues (items.map toValue) = .ok items := by
  induction items with
  | nil => rfl
  | cons item rest ih =>
    obtain ⟨hitem, hrest⟩ := List.forall_mem_cons.1 h
    rw [List.map_cons, ofValues, hitem, ih hrest]
    rfl

theorem ofEntries_toEntries {entries : List (String × Item)}
    (h : ∀ entry ∈ entries, ofValue entry.2.toValue = .ok entry.2) :
    ofEntries (toEntries entries) = .ok entries := by
  induction entries with
  | nil => rfl
  | cons entry rest ih =>
    obtain ⟨hentry, hrest⟩ := List.forall_mem_cons.1 h
    rw [toEntries, ofEntries, hentry, ih hrest]
    rfl

/-- **The value of a sound item becomes that item again.** -/
theorem Sound.ofValue_toValue {item : Item} (h : item.Sound) : ofValue item.toValue = .ok item := by
  induction h with
  | text | double | bool => rfl
  | @whole n hlow hhigh =>
    have hof : Whole.ofInt? n = some ⟨n, hlow, Int.lt_trans hhigh (by decide)⟩ := by
      rw [Whole.ofInt?, dif_pos ⟨hlow, Int.lt_trans hhigh (by decide)⟩]
    rw [toValue, hof]
    simp only [Option.elim_some, ofValue, ofWhole, Whole.isSigned, decide_eq_true hhigh, if_true]
  | @datetime d hd =>
    have hstamp :
        ofValue (.ofDatetime (String.ofList d.text)) = ofStamp (String.ofList d.text) := by
      rw [Value.ofDatetime, ofValue]
      rfl
    rw [toValue, hstamp, ofStamp, String.toList_ofList, hd]
  | list _ ih =>
    rw [toValue, toValues_eq_map, ofValue, ofValues_map_toValue ih]
    rfl
  | @table entries _ hmark _ ih =>
    rw [toValue, ofValue, Value.datetime?_of_notMem (by rwa [names_toEntries])]
    simp only
    rw [ofEntries_toEntries ih]
    rfl

theorem resolveEntries?_of_forall {entries : List (String × Item)}
    (h : ∀ entry ∈ entries, entry.2.resolve? = some entry.2) :
    resolveEntries? entries = some entries := by
  induction entries with
  | nil => rfl
  | cons entry rest ih =>
    obtain ⟨hentry, hrest⟩ := List.forall_mem_cons.1 h
    rw [resolveEntries?, hentry, ih hrest]
    rfl

theorem resolveItems?_of_forall {items : List Item}
    (h : ∀ item ∈ items, item.resolve? = some item) :
    resolveItems? items = some items := by
  induction items with
  | nil => rfl
  | cons item rest ih =>
    obtain ⟨hitem, hrest⟩ := List.forall_mem_cons.1 h
    rw [resolveItems?, hitem, ih hrest]
    rfl

/-- **No table of a sound item is taken for a date.** -/
theorem Sound.resolve? {item : Item} (h : item.Sound) : item.resolve? = some item := by
  induction h with
  | text | whole | double | bool | datetime => rfl
  | list _ ih =>
    rw [Item.resolve?, resolveItems?_of_forall ih]
    rfl
  | @table entries _ hmark _ ih =>
    have hnone : mark? entries = none := by
      cases entries with
      | nil => rfl
      | cons entry rest =>
        rw [mark?, if_neg]
        exact fun he => hmark (he ▸ List.mem_cons_self)
    rw [Item.resolve?, hnone]
    simp only
    rw [resolveEntries?_of_forall ih]
    rfl

/-! ## Arranged items -/

theorem Sound.item {items : List Item} (h : (Item.list items).Sound) :
    ∀ item ∈ items, item.Sound := by
  cases h with
  | list hitems => exact hitems

theorem Sound.entry {entries : List (String × Item)} (h : (Item.table entries).Sound) :
    ∀ entry ∈ entries, entry.2.Sound := by
  cases h with
  | table _ _ hentries => exact hentries

theorem Sound.isSection_toValue {item : Item} (h : item.Sound) :
    item.toValue.isSection = item.isTable := by
  cases h with
  | text | double | bool | datetime | list => rfl
  | whole =>
    rw [toValue]
    cases Whole.ofInt? _ <;> rfl
  | table _ hmark _ =>
    rw [toValue, Value.isSection, Value.datetime?_of_notMem (by rwa [names_toEntries])]
    rfl

theorem Sound.hasHeaders_toValue {item : Item} (h : item.Sound) :
    item.toValue.hasHeaders = item.hasHeaders := by
  cases item with
  | list items =>
    rw [toValue, toValues_eq_map, Value.hasHeaders, hasHeaders, List.isEmpty_map, List.all_map]
    refine congrArg _ ?_
    rw [Bool.eq_iff_iff, List.all_eq_true, List.all_eq_true]
    exact forall₂_congr fun item hm => by
      rw [Function.comp_apply, (h.item item hm).isSection_toValue]
  | table entries =>
    have hsection := h.isSection_toValue
    rw [toValue] at hsection ⊢
    exact hsection
  | whole n =>
    have hsection := h.isSection_toValue
    rw [toValue] at hsection ⊢
    cases hn : Whole.ofInt? n <;> rfl
  | text | double | notFinite | bool | datetime => rfl

/-- **An item stays sound when it is arranged.** -/
theorem Sound.arranged {item : Item} (h : item.Sound) : item.arranged.Sound := by
  induction h with
  | text s => exact .text s
  | whole hlow hhigh => exact .whole hlow hhigh
  | double hx => exact .double hx
  | bool b => exact .bool b
  | datetime hd => exact .datetime hd
  | @list items hitems ih =>
    cases hh : (Item.list items).hasHeaders with
    | true =>
      rw [arranged_list hh]
      refine .list fun item hm => ?_
      obtain ⟨origin, ho, rfl⟩ := List.mem_map.1 hm
      exact ih origin ho
    | false =>
      rw [arranged_of_plain hh]
      exact .list hitems
  | @table entries hnames hmark hentries ih =>
    have hperm := @Entries.names_sectionsLast _ hasHeaders Item.arranged entries
    rw [arranged_table]
    refine .table (hperm.nodup_iff.2 hnames) (fun hm => hmark (hperm.mem_iff.1 hm))
      fun entry hm => ?_
    rcases Entries.mem_sectionsLast hm with ⟨he, -⟩ | ⟨origin, ho, -, rfl⟩
    · exact hentries entry he
    · exact ih origin ho

/-- **Arranging an item arranges the value that it stands for.** -/
theorem Sound.toValue_arranged {item : Item} (h : item.Sound) :
    item.arranged.toValue = item.toValue.arranged := by
  induction h with
  | text | double | bool | datetime => rfl
  | @whole n _ _ =>
    have hsame : (Item.whole n).arranged = .whole n := rfl
    rw [hsame, toValue]
    cases Whole.ofInt? n <;> rfl
  | @list items hitems ih =>
    have hsame := (Sound.list hitems).hasHeaders_toValue
    cases hh : (Item.list items).hasHeaders with
    | true =>
      rw [hh, toValue, toValues_eq_map] at hsame
      rw [arranged_list hh, toValue, toValue, toValues_eq_map, toValues_eq_map,
        Value.arranged_list hsame, List.map_map, List.map_map]
      exact congrArg _ (List.map_congr_left ih)
    | false =>
      rw [hh] at hsame
      rw [arranged_of_plain hh, Value.arranged_of_plain hsame]
  | @table entries hnames hmark hentries ih =>
    have hsame := (Sound.table hnames hmark hentries).hasHeaders_toValue
    rw [toValue] at hsame
    rw [arranged_table, toValue, toValue, Value.arranged_table hsame, toEntries_eq_map,
      toEntries_eq_map]
    exact congrArg _ (Entries.map_sectionsLast (fun entry hm =>
      (hentries entry hm).hasHeaders_toValue) ih)

theorem elementSections_map_arranged (path : List String) {items : List Item}
    (h : ∀ item ∈ items, ∀ path, itemSections path item.arranged = itemSections path item) :
    elementSections path (items.map Item.arranged) = elementSections path items := by
  induction items with
  | nil => rfl
  | cons item rest ih =>
    obtain ⟨hitem, hrest⟩ := List.forall_mem_cons.1 h
    cases item with
    | table entries =>
      -- the sections of an element are those of the table, behind another header
      have hsections : sections path (arrangedEntries entries) = sections path entries := by
        have hpath := hitem path
        rw [arranged_table, itemSections, itemSections, needsHeader_arrangedEntries,
          plainLines_arrangedEntries] at hpath
        exact List.append_cancel_left hpath
      rw [List.map_cons, arranged_table, elementSections, elementSections,
        plainLines_arrangedEntries, hsections, ih hrest]
    | list items =>
      have harranged : ∃ items', (Item.list items).arranged = .list items' := by
        rw [arranged]
        split <;> exact ⟨_, rfl⟩
      obtain ⟨items', hlist⟩ := harranged
      rw [List.map_cons, hlist, elementSections, elementSections, ih hrest]
      all_goals exact fun _ he => by cases he
    | text | whole | double | notFinite | bool | datetime => exact ih hrest

/-- **An arranged item is written as the item was.** -/
theorem Sound.itemSections_arranged {item : Item} (h : item.Sound) (path : List String) :
    itemSections path item.arranged = itemSections path item := by
  induction h generalizing path with
  | text | whole | double | bool | datetime => rfl
  | @list items hitems ih =>
    cases hh : (Item.list items).hasHeaders with
    | true =>
      have hmapped := hasHeaders_arranged (.list items)
      rw [arranged_list hh, hh] at hmapped
      rw [arranged_list hh, itemSections, itemSections, if_pos hmapped, if_pos hh]
      exact elementSections_map_arranged path ih
    | false => rw [arranged_of_plain hh]
  | @table entries _ _ _ ih =>
    rw [arranged_table, itemSections, itemSections, needsHeader_arrangedEntries,
      plainLines_arrangedEntries, sections_arrangedEntries path ih]

/-! ## Within the limit -/

/-- At most `depth` containers lie inside each other. -/
inductive NestsInLine : (depth : Nat) → Item → Prop where
  | scalar {depth : Nat} {item : Item} : (∀ items, item ≠ .list items) →
      (∀ entries, item ≠ .table entries) → NestsInLine depth item
  | list {depth : Nat} {items : List Item} : (∀ item ∈ items, NestsInLine depth item) →
      NestsInLine (depth + 1) (.list items)
  | table {depth : Nat} {entries : List (String × Item)} :
      (∀ entry ∈ entries, NestsInLine depth entry.2) → NestsInLine (depth + 1) (.table entries)

/-- What the reader of TOML needs of the nesting of an item in a table: with its own name, no header
gets more than `names` names on top of those of the table, and what is written in line nests no
deeper than the reader goes. -/
inductive Nests : (names : Nat) → Item → Prop where
  | inLine {names : Nat} {item : Item} : item.hasHeaders = false → item.NestsInLine nestingLimit →
      Nests names item
  | table {names : Nat} {entries : List (String × Item)} :
      (∀ entry ∈ entries, Nests names entry.2) → Nests (names + 1) (.table entries)
  | elements {names : Nat} {tables : List (List (String × Item))} : tables ≠ [] →
      (∀ entries ∈ tables, ∀ entry ∈ entries, Nests names entry.2) →
      Nests (names + 1) (.list (tables.map .table))

/-- An item that can be read back from the lines of a document, where headers may get `names` more
names. -/
inductive Sectioned : (names : Nat) → Item → Prop where
  | inLine {names : Nat} {item : Item} : item.hasHeaders = false → item.InLine nestingLimit →
      Sectioned names item
  | table {names : Nat} {entries : List (String × Item)} : (entries.map Prod.fst).Nodup →
      (∀ entry ∈ entries, Sectioned names entry.2) → Sectioned (names + 1) (.table entries)
  | elements {names : Nat} {tables : List (List (String × Item))} : tables ≠ [] →
      (∀ entries ∈ tables, (entries.map Prod.fst).Nodup) →
      (∀ entries ∈ tables, ∀ entry ∈ entries, Sectioned names entry.2) →
      Sectioned (names + 1) (.list (tables.map .table))

theorem Sound.inLine {item : Item} (h : item.Sound) {depth : Nat} (hn : item.NestsInLine depth) :
    item.InLine depth := by
  induction hn with
  | scalar hlist htable =>
    cases h with
    | text s => exact .text s
    | whole hlow hhigh => exact .whole hlow hhigh
    | double hx => exact .double hx
    | bool b => exact .bool b
    | datetime hd => exact .datetime hd
    | list => exact absurd rfl (hlist _)
    | table => exact absurd rfl (htable _)
  | list _ ih => exact .list fun item hm => ih item hm (h.item item hm)
  | table _ ih =>
    cases h with
    | table hnames _ hentries => exact .table hnames fun entry hm => ih entry hm (hentries entry hm)

theorem Sound.sectioned {item : Item} (h : item.Sound) {names : Nat} (hn : item.Nests names) :
    item.Sectioned names := by
  induction hn with
  | inLine hh hdepth => exact .inLine hh (h.inLine hdepth)
  | table _ ih =>
    cases h with
    | table hnames _ hentries => exact .table hnames fun entry hm => ih entry hm (hentries entry hm)
  | elements hne _ ih =>
    have htable := fun entries hm => h.item (.table entries) (List.mem_map.2 ⟨entries, hm, rfl⟩)
    refine .elements hne (fun entries hm => ?_) fun entries hm entry he =>
      ih entries hm entry he ((htable entries hm).entry entry he)
    cases htable entries hm with
    | table hnames _ _ => exact hnames

end Item

end Toml

/-! ## Values that TOML holds -/

/-- A value that TOML holds as it is: no table names anything twice, there is no null, whole numbers
are signed, doubles are read back, and the name of a date is that of a date in its normal text. -/
structure Value.Storable (v : Value) : Prop where
  distinct : ∀ entries, (Value.table entries).IsPart v → (entries.map Prod.fst).Nodup
  noNull : ¬ Value.null.IsPart v
  signed : ∀ n, (Value.whole n).IsPart v → n.isSigned = true
  doubles : ∀ x, (Value.double x).IsPart v → x.TomlReadsBack
  dates : ∀ entries, (Value.table entries).IsPart v → Value.datetimeField ∈ entries.map Prod.fst →
    ∃ stamp, Toml.Normal stamp ∧ Value.table entries = .ofDatetime stamp

namespace Value.Storable

open Toml (Item)

theorem item {items : List Value} (h : (Value.list items).Storable) {item : Value}
    (hm : item ∈ items) : item.Storable :=
  ⟨fun entries hp => h.distinct entries (.item hm hp), fun hp => h.noNull (.item hm hp),
    fun n hp => h.signed n (.item hm hp), fun x hp => h.doubles x (.item hm hp),
    fun entries hp => h.dates entries (.item hm hp)⟩

theorem entry {entries : List (String × Value)} (h : (Value.table entries).Storable)
    {entry : String × Value} (hm : entry ∈ entries) : entry.2.Storable :=
  ⟨fun inner hp => h.distinct inner (.entry hm hp), fun hp => h.noNull (.entry hm hp),
    fun n hp => h.signed n (.entry hm hp), fun x hp => h.doubles x (.entry hm hp),
    fun inner hp => h.dates inner (.entry hm hp)⟩

theorem exists_items {values : List Value}

    (h : ∀ value ∈ values,
      ∃ item, Item.ofValue value = .ok item ∧ item.toValue = value ∧ item.Sound) :
    ∃ items, Item.ofValues values = .ok items ∧ Item.toValues items = values ∧
      ∀ item ∈ items, item.Sound := by
  induction values with
  | nil => exact ⟨[], rfl, rfl, fun _ hm => absurd hm List.not_mem_nil⟩
  | cons value rest ih =>
    obtain ⟨hvalue, hrest⟩ := List.forall_mem_cons.1 h
    obtain ⟨item, hof, hto, hs⟩ := hvalue
    obtain ⟨items, hofs, htos, hss⟩ := ih hrest
    refine ⟨item :: items, ?_, ?_, List.forall_mem_cons.2 ⟨hs, hss⟩⟩
    · rw [Item.ofValues, hof, hofs]
      rfl
    · rw [Item.toValues, hto, htos]

theorem exists_entries {entries : List (String × Value)}

    (h : ∀ entry ∈ entries,
      ∃ item, Item.ofValue entry.2 = .ok item ∧ item.toValue = entry.2 ∧ item.Sound) :
    ∃ items, Item.ofEntries entries = .ok items ∧ Item.toEntries items = entries ∧
      ∀ entry ∈ items, entry.2.Sound := by
  induction entries with
  | nil => exact ⟨[], rfl, rfl, fun _ hm => absurd hm List.not_mem_nil⟩
  | cons entry rest ih =>
    obtain ⟨hentry, hrest⟩ := List.forall_mem_cons.1 h
    obtain ⟨item, hof, hto, hs⟩ := hentry
    obtain ⟨items, hofs, htos, hss⟩ := ih hrest
    refine ⟨(entry.1, item) :: items, ?_, ?_, List.forall_mem_cons.2 ⟨hs, hss⟩⟩
    · rw [Item.ofEntries, hof, hofs]
      rfl
    · rw [Item.toEntries, hto, htos]

/-- **A value that TOML holds becomes a sound item that stands for it.** -/
theorem exists_item {v : Value} (h : v.Storable) :
    ∃ item, Item.ofValue v = .ok item ∧ item.toValue = v ∧ item.Sound := by
  induction v with
  | null => exact absurd .self h.noNull
  | bool b => exact ⟨.bool b, rfl, rfl, .bool b⟩
  | whole n =>
    have hsigned := h.signed n .self
    have hhigh : n.value < 0x8000000000000000 := of_decide_eq_true hsigned
    refine ⟨.whole n.value, ?_, ?_, .whole n.lower hhigh⟩
    · rw [Item.ofValue, Item.ofWhole, if_pos hsigned]
    · rw [Item.toValue, Whole.ofInt?, dif_pos ⟨n.lower, n.upper⟩]
      rfl
  | double x => exact ⟨.double x, rfl, rfl, .double (h.doubles x .self)⟩
  | text s => exact ⟨.text s, rfl, rfl, .text s⟩
  | list items ih =>
    obtain ⟨done, hof, hto, hs⟩ := exists_items fun item hm => ih item hm (h.item hm)
    refine ⟨.list done, ?_, ?_, .list hs⟩
    · rw [Item.ofValue, hof]
      rfl
    · rw [Item.toValue, hto]
  | table entries ih =>
    by_cases hmark : datetimeField ∈ entries.map Prod.fst
    · obtain ⟨stamp, ⟨d, hd, hnormal⟩, he⟩ := h.dates entries .self hmark
      have hdate : Item.ofValue (.table entries) = Item.ofStamp stamp := by
        rw [Item.ofValue, (datetime?_eq_some_iff _ _).2 he]
      refine ⟨.datetime d, ?_, ?_, .datetime ?_⟩
      · rw [hdate, Item.ofStamp, hd]
      · rw [Item.toValue, hnormal, he]
      · rw [← hnormal, String.toList_ofList] at hd
        exact hd
    · obtain ⟨done, hof, hto, hs⟩ := exists_entries fun entry hm => ih entry hm (h.entry hm)
      have hnames : done.map Prod.fst = entries.map Prod.fst := by rw [← Item.names_toEntries, hto]
      refine ⟨.table done, ?_, ?_, .table ?_ ?_ hs⟩
      · rw [Item.ofValue, datetime?_of_notMem hmark]
        simp only
        rw [hof]
        rfl
      · rw [Item.toValue, hto]
      · rw [hnames]
        exact h.distinct entries .self
      · rwa [hnames]

end Value.Storable

end Sweep
