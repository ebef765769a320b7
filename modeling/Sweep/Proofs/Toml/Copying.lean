import Mathlib
import Sweep.Proofs.Toml.Contents
import Sweep.Proofs.Toml.RoundTrip

/-!
# What was read can be written, except a number that is not finite

Everything in a text of TOML has a value that becomes the same item again: whole numbers are signed,
dates are in range and so have a text that stands for them, and no table is taken for a date that is
none. A number that is not finite is the exception. Its value is a null, for which there is no item.

So of all documents that are read from TOML exactly those are not written as TOML that come from a
text with a number that is not finite, at any depth (`encode_of_decode`). All others are written as
the items that were read.
-/

set_option autoImplicit false

namespace Sweep.Toml

namespace Item

/-! ## Parts and values -/

theorem IsPart.toValue {part item : Item} (h : part.IsPart item) :
    part.toValue.IsPart item.toValue := by
  induction h with
  | self => exact .self
  | item hm _ ih =>
    rw [Item.toValue, toValues_eq_map]
    exact .item (List.mem_map_of_mem hm) ih
  | entry hm _ ih =>
    rw [Item.toValue, toEntries_eq_map]
    exact .entry (List.mem_map_of_mem hm) ih

theorem resolve?_list_iff {items : List Item} :
    (Item.list items).resolve? = some (.list items) ↔
      ∀ item ∈ items, item.resolve? = some item := by
  constructor
  · intro h
    obtain ⟨done, hd, he⟩ := Option.map_eq_some_iff.1 h
    cases he
    exact List.forall₂_same.1 (forall₂_of_resolveItems? hd)
  · intro h
    rw [Item.resolve?, resolveItems?_of_forall h]
    rfl

theorem resolve?_table_iff {entries : List (String × Item)} :
    (Item.table entries).resolve? = some (.table entries) ↔
      mark? entries = none ∧ ∀ entry ∈ entries, entry.2.resolve? = some entry.2 := by
  rw [Item.resolve?]
  constructor
  · intro h
    split at h
    · obtain ⟨_, _, -, -, he⟩ := ofMark?_eq_some h
      cases he
    · next hmark =>
      obtain ⟨done, hd, he⟩ := Option.map_eq_some_iff.1 h
      cases he
      exact ⟨hmark, fun entry hm =>
        (List.forall₂_same.1 (forall₂_of_resolveEntries? hd) entry hm).2⟩
  · rintro ⟨hmark, h⟩
    rw [hmark]
    simp only
    rw [resolveEntries?_of_forall h]
    rfl

/-- A table that is not marked as a date has a value that is not taken for one. -/
theorem datetime?_of_mark? {entries : List (String × Item)} (h : mark? entries = none) :
    (Value.table (toEntries entries)).datetime? = none := by
  cases hd : (Value.table (toEntries entries)).datetime? with
  | none => rfl
  | some stamp =>
    rw [Value.datetime?_eq_some_iff] at hd
    cases entries with
    | nil => cases hd
    | cons entry rest =>
      rw [mark?] at h
      split at h
      · cases h
      · next hne =>
        rw [toEntries] at hd
        exact absurd (congrArg Prod.fst (List.cons.inj (Value.table.inj hd)).1) hne

/-! ## Items that are read -/

/-- What is read from a text: its scalars are in range and none of its tables would be taken for a
date. -/
def IsRead (item : Item) : Prop := item.Every InRange (fun _ => True) ∧ item.resolve? = some item

theorem isRead_list_iff {items : List Item} :
    (Item.list items).IsRead ↔ ∀ item ∈ items, item.IsRead := by
  rw [IsRead, every_list_iff, resolve?_list_iff]
  exact ⟨fun h item hm => ⟨h.1 item hm, h.2 item hm⟩,
    fun h => ⟨fun item hm => (h item hm).1, fun item hm => (h item hm).2⟩⟩

theorem isRead_table_iff {entries : List (String × Item)} :
    (Item.table entries).IsRead ↔ mark? entries = none ∧ ∀ entry ∈ entries, entry.2.IsRead := by
  rw [IsRead, every_table_iff, resolve?_table_iff]
  constructor
  · rintro ⟨hevery, hmark, hresolved⟩
    exact ⟨hmark, fun entry hm => ⟨(hevery entry hm).2, hresolved entry hm⟩⟩
  · rintro ⟨hmark, h⟩
    exact ⟨fun entry hm => ⟨trivial, (h entry hm).1⟩, hmark, fun entry hm => (h entry hm).2⟩

theorem IsRead.inRange {item : Item} (h : item.IsRead) (hs : item.IsScalar) :
    item.InRange := (every_scalar_iff hs).1 h.1

/-- **A value that was read becomes its item again**, if every number in it is finite. -/
theorem IsRead.ofValue_toValue {item : Item} (h : item.IsRead) (hf : ¬ Item.notFinite.IsPart item) :
    ofValue item.toValue = .ok item := by
  induction item with
  | text | double | bool => rfl
  | notFinite => exact absurd .self hf
  | whole n => exact (Sound.whole (h.inRange trivial).1 (h.inRange trivial).2).ofValue_toValue
  | datetime d => exact (Sound.datetime (ofText_text (h.inRange trivial))).ofValue_toValue
  | list items ih =>
    have hitems := isRead_list_iff.1 h
    rw [toValue, toValues_eq_map, ofValue,
      ofValues_map_toValue fun item hm => ih item hm (hitems item hm) fun hp => hf (.item hm hp)]
    rfl
  | table entries ih =>
    obtain ⟨hmark, hentries⟩ := isRead_table_iff.1 h
    rw [toValue, ofValue, datetime?_of_mark? hmark]
    simp only
    rw [ofEntries_toEntries fun entry hm =>
      ih entry hm (hentries entry hm) fun hp => hf (.entry hm hp)]
    rfl

/-! ## Faults -/

theorem exists_fault_of_ofValues {values : List Value} {why : EncodeFault}
    (h : ofValues values = .error why) :
    ∃ value ∈ values, ofValue value = .error why := by
  induction values with
  | nil => cases h
  | cons value rest ih =>
    rw [ofValues] at h
    split at h
    · next hfirst =>
      cases h
      exact ⟨value, List.mem_cons_self, hfirst⟩
    · obtain ⟨other, hm, ho⟩ := ih (Except.map_eq_error_iff.1 h)
      exact ⟨other, List.mem_cons_of_mem _ hm, ho⟩

theorem exists_fault_of_ofEntries {entries : List (String × Value)} {why : EncodeFault}
    (h : ofEntries entries = .error why) :
    ∃ entry ∈ entries, ofValue entry.2 = .error why := by
  induction entries with
  | nil => cases h
  | cons entry rest ih =>
    rw [ofEntries] at h
    split at h
    · next hfirst =>
      cases h
      exact ⟨entry, List.mem_cons_self, hfirst⟩
    · obtain ⟨other, hm, ho⟩ := ih (Except.map_eq_error_iff.1 h)
      exact ⟨other, List.mem_cons_of_mem _ hm, ho⟩

theorem exists_fault_of_toEntries {entries : List (String × Item)} {why : EncodeFault}
    (h : ofEntries (toEntries entries) = .error why) :
    ∃ entry ∈ entries, ofValue entry.2.toValue = .error why := by
  rw [toEntries_eq_map] at h
  obtain ⟨entry, hm, hv⟩ := exists_fault_of_ofEntries h
  obtain ⟨origin, ho, rfl⟩ := List.mem_map.1 hm
  exact ⟨origin, ho, hv⟩

/-- **The only fault of a value that was read is a null.** -/
theorem IsRead.fault {item : Item} (h : item.IsRead) {why : EncodeFault}
    (hw : ofValue item.toValue = .error why) :
    why = .null := by
  induction item with
  | text | double | bool => cases hw
  | notFinite =>
    cases hw
    rfl
  | whole n =>
    rw [(Sound.whole (h.inRange trivial).1 (h.inRange trivial).2).ofValue_toValue] at hw
    cases hw
  | datetime d =>
    rw [(Sound.datetime (ofText_text (h.inRange trivial))).ofValue_toValue] at hw
    cases hw
  | list items ih =>
    rw [toValue, toValues_eq_map, ofValue, Except.map_eq_error_iff] at hw
    obtain ⟨value, hm, hv⟩ := exists_fault_of_ofValues hw
    obtain ⟨item, hi, rfl⟩ := List.mem_map.1 hm
    exact ih item hi (isRead_list_iff.1 h item hi) hv
  | table entries ih =>
    obtain ⟨hmark, hentries⟩ := isRead_table_iff.1 h
    rw [toValue, ofValue, datetime?_of_mark? hmark] at hw
    simp only at hw
    obtain ⟨entry, hm, hv⟩ := exists_fault_of_toEntries (Except.map_eq_error_iff.1 hw)
    exact ih entry hm (hentries entry hm) hv

end Item

/-! ## Documents -/

/-- **A document that was read from TOML is written as TOML exactly if every number in its text is
finite**, at whatever depth it stands: strings, whole numbers, doubles, booleans, dates and times,
arrays and tables are all written as the items that they were read as. A number that is not finite
has become a null, which is refused. -/
theorem encode_of_decode {text : String} {doc : Document}
    (h : FileFormat.toml.decode? text = some doc) :
    ∃ items, readItems? text = some items ∧ doc.entries = Item.toEntries items ∧
      (¬ Item.notFinite.IsPart (.table items) →
        FileFormat.toml.encode doc = .ok (String.ofList (documentText items))) ∧
      (Item.notFinite.IsPart (.table items) → FileFormat.toml.encode doc = .error .null) := by
  rw [FileFormat.decode?, readTable?, Option.map_map] at h
  obtain ⟨items, hread, rfl⟩ := Option.map_eq_some_iff.1 h
  have hdoc : ∀ entry ∈ items, entry.2.IsRead := by
    obtain ⟨hevery, hresolved⟩ := inRange_of_readItems? hread
    exact fun entry hm => ⟨(Item.every_table_iff.1 hevery entry hm).2, hresolved entry hm⟩
  refine ⟨items, hread, rfl, fun hf => ?_, fun hpart => ?_⟩
  · have hof := Item.ofEntries_toEntries fun entry hm =>
      (hdoc entry hm).ofValue_toValue fun hp => hf (.entry hm hp)
    rw [FileFormat.encode]
    simp only [Function.comp_apply, hof]
    rfl
  · rw [FileFormat.encode, Except.map_eq_error_iff]
    -- the null of the number has no item, so there is a fault, and it can be no other
    have hfails : ∃ why, Item.ofEntries (Item.toEntries items) = .error why := by
      rcases hpart with _ | _ | ⟨hm, hp⟩
      refine Item.ofEntries_fails_iff.2 ⟨_,
        (Item.toEntries_eq_map items) ▸ List.mem_map_of_mem hm, ?_⟩
      exact (Item.ofValue_fails_iff _).2 ⟨.null, hp.toValue, .inl rfl⟩
    obtain ⟨why, hw⟩ := hfails
    have hnull : why = .null := by
      obtain ⟨entry, hm, hv⟩ := Item.exists_fault_of_toEntries hw
      exact (hdoc entry hm).fault hv
    rw [← hnull]
    exact hw

/-- A text with a date in an array, and a table with a whole number. -/
def almanac : String := "d = [1979-05-27]\n[s]\nr = -1\n"

def almanacItems : List (String × Item) :=
  [("d", .list [.datetime (.date ⟨1979, 5, 27⟩)]), ("s", .table [("r", .whole (-1))])]

theorem readItems?_almanac : readItems? almanac = some almanacItems := by cbv

theorem finite_almanacItems : ¬ Item.notFinite.IsPart (.table almanacItems) := by
  rintro (_ | _ | ⟨hm, hp⟩)
  rcases List.mem_pair.1 hm with rfl | rfl
  · rcases hp with _ | ⟨hm, hp⟩ | _
    cases List.mem_singleton.1 hm
    cases hp
  · rcases hp with _ | _ | ⟨hm, hp⟩
    cases List.mem_singleton.1 hm
    cases hp

/-- The almanac is copied. -/
theorem encode_of_decode_almanac :
    ∃ doc, FileFormat.toml.decode? almanac = some doc ∧
      FileFormat.toml.encode doc = .ok (String.ofList (documentText almanacItems)) := by
  have hdecode : FileFormat.toml.decode? almanac = some ⟨Item.toEntries almanacItems⟩ := by
    rw [FileFormat.decode?, readTable?, readItems?_almanac]
    rfl
  refine ⟨_, hdecode, ?_⟩
  obtain ⟨items, hread, -, hok, -⟩ := encode_of_decode hdecode
  rw [readItems?_almanac] at hread
  cases hread
  exact hok finite_almanacItems

/-- **A number that is not finite is lost at once**, and the document is then refused. -/
theorem encode_of_decode_nan :
    FileFormat.toml.decode? "a = nan\n" = some ⟨[("a", .null)]⟩ ∧
      FileFormat.toml.encode ⟨[("a", .null)]⟩ = .error .null :=
  ⟨rfl, rfl⟩

end Sweep.Toml
