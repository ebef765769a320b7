import Mathlib.Data.List.Nodup
import Sweep.Proofs.Document.Names
import Sweep.Proofs.Document.Parts
import Sweep.Toml.Printer

/-!
# The order in which TOML holds a table

A table with headers holds its plain entries first, and behind them its tables and arrays of tables,
both in the order they had; the same goes for every table that is written with headers in it. That
is the only change that writing a document and reading it back makes, and it is told here by itself:
of values (`Value.arranged`), of documents, and of the items that values become. An arranged item
has the same text as before, which is why writing once more changes nothing.
-/

set_option autoImplicit false

namespace Sweep

namespace Entries

variable {α : Type}

/-- The entries that need no header first, and the others behind them, changed by a function. -/
def sectionsLast (headed : α → Bool) (f : α → α) (entries : List (String × α)) :
    List (String × α) :=
  entries.filter (fun entry => !headed entry.2) ++
    (entries.filter (fun entry => headed entry.2)).map fun entry => (entry.1, f entry.2)

variable {headed : α → Bool} {f : α → α}

theorem names_sectionsLast (entries : List (String × α)) :
    ((sectionsLast headed f entries).map Prod.fst).Perm (entries.map Prod.fst) := by
  have hnames : (sectionsLast headed f entries).map Prod.fst =
      (entries.filter (fun entry => !headed entry.2) ++ entries.filter fun entry =>
        headed entry.2).map Prod.fst := by
    rw [sectionsLast, List.map_append, List.map_append, List.map_map]
    rfl
  rw [hnames]
  exact (List.perm_append_comm.trans (List.filter_append_perm _ entries)).map _

theorem mem_sectionsLast {entries : List (String × α)} {entry : String × α}
    (h : entry ∈ sectionsLast headed f entries) :
    entry ∈ entries ∧ headed entry.2 = false ∨
      ∃ origin ∈ entries, headed origin.2 = true ∧ entry = (origin.1, f origin.2) := by
  rcases List.mem_append.1 h with h | h
  · obtain ⟨hm, hh⟩ := List.mem_filter.1 h
    exact .inl ⟨hm, by simpa using hh⟩
  · obtain ⟨origin, ho, rfl⟩ := List.mem_map.1 h
    obtain ⟨hm, hh⟩ := List.mem_filter.1 ho
    exact .inr ⟨origin, hm, hh, rfl⟩

/-- A name finds the same value as before, changed by the function. -/
theorem find?_sectionsLast (hf : ∀ value, headed value = false → f value = value)
    {entries : List (String × α)} (hd : (entries.map Prod.fst).Nodup) (name : String) :
    find? name (sectionsLast headed f entries) = (find? name entries).map f := by
  rw [sectionsLast, find?_append, find?_map, find?_filter hd (fun value => !headed value),
    find?_filter hd headed]
  cases find? name entries with
  | none => rfl
  | some value =>
    cases hh : headed value with
    | true => simp [Option.filter, hh]
    | false => simp [Option.filter, hh, hf value hh]

/-- A map of the values takes one order to the other, if it agrees on what needs a header and on the
function. -/
theorem map_sectionsLast {β : Type} {headed' : β → Bool} {f' : β → β} {g : α → β}
    {entries : List (String × α)} (hh : ∀ entry ∈ entries, headed' (g entry.2) = headed entry.2)
    (hf : ∀ entry ∈ entries, g (f entry.2) = f' (g entry.2)) :
    (sectionsLast headed f entries).map (fun entry => (entry.1, g entry.2)) =
      sectionsLast headed' f' (entries.map fun entry => (entry.1, g entry.2)) := by
  rw [sectionsLast, sectionsLast, List.map_append, List.filter_map, List.filter_map,
    List.map_map, List.map_map]
  refine congrArg₂ _ (congrArg _ (List.filter_congr fun entry hm => ?_)) ?_
  · simp only [Function.comp_apply, hh entry hm]
  · have hfilter :
        entries.filter ((fun entry => headed' entry.2) ∘ fun entry => (entry.1, g entry.2)) =
        entries.filter fun entry => headed entry.2 := List.filter_congr fun entry hm => hh entry hm
    rw [hfilter]
    refine List.map_congr_left fun entry hm => ?_
    simp only [Function.comp_apply, hf entry (List.mem_filter.1 hm).1]

end Entries

/-! ## Values -/

namespace Value

/-- A table that is no date. -/
def isSection : Value → Bool
  | .table entries => (Value.table entries).datetime?.isNone
  | _ => false

/-- Whether TOML writes a value with headers: a table, or a list that is not empty and holds tables
only. -/
def hasHeaders : Value → Bool
  | .list items => !items.isEmpty && items.all isSection
  | v => v.isSection

mutual

/-- A value as TOML holds it: in every table with headers the entries that need none come first. -/
def arranged : Value → Value
  | .list items =>
    if (Value.list items).hasHeaders then .list (arrangedItems items) else .list items
  | .table entries =>
    if (Value.table entries).hasHeaders then
      .table (entries.filter (fun entry => !entry.2.hasHeaders) ++ arrangedSections entries)
    else .table entries
  | v => v

def arrangedItems : List Value → List Value
  | [] => []
  | first :: rest => arranged first :: arrangedItems rest

/-- The entries that need a header, arranged. -/
def arrangedSections : List (String × Value) → List (String × Value)
  | [] => []
  | (name, value) :: rest =>
    if value.hasHeaders then (name, arranged value) :: arrangedSections rest
    else arrangedSections rest

end

/-- The entries of a table with headers, arranged. -/
def arrangedEntries (entries : List (String × Value)) : List (String × Value) :=
  Entries.sectionsLast hasHeaders arranged entries

theorem arrangedItems_eq_map (items : List Value) : arrangedItems items = items.map arranged := by
  induction items with
  | nil => rfl
  | cons first rest ih => rw [arrangedItems, List.map_cons, ih]

theorem arrangedSections_eq (entries : List (String × Value)) :
    arrangedSections entries =
      (entries.filter fun entry => entry.2.hasHeaders).map fun entry =>
        (entry.1, arranged entry.2) := by
  induction entries with
  | nil => rfl
  | cons entry rest ih =>
    rw [arrangedSections]
    split
    · next hh => rw [List.filter_cons_of_pos (by exact hh), List.map_cons, ih]
    · next hh => rw [List.filter_cons_of_neg (by exact hh), ih]

theorem arranged_table {entries : List (String × Value)}
    (h : (Value.table entries).hasHeaders = true) :
    (Value.table entries).arranged = .table (arrangedEntries entries) := by
  rw [arranged, if_pos h, arrangedSections_eq]
  rfl

theorem arranged_list {items : List Value} (h : (Value.list items).hasHeaders = true) :
    (Value.list items).arranged = .list (items.map arranged) := by
  rw [arranged, if_pos h, arrangedItems_eq_map]

theorem exists_arranged_list (items : List Value) :
    ∃ arranged, (Value.list items).arranged = .list arranged := by
  rw [arranged]
  split <;> exact ⟨_, rfl⟩

/-- A table without headers is a date. -/
theorem exists_datetime?_of_plain {entries : List (String × Value)}
    (h : (Value.table entries).hasHeaders = false) :
    ∃ stamp, (Value.table entries).datetime? = some stamp := by
  have hsection : (Value.table entries).datetime?.isNone = false := h
  rwa [Option.isNone_eq_false_iff, Option.isSome_iff_exists] at hsection

theorem arranged_of_plain {v : Value} (h : v.hasHeaders = false) : v.arranged = v := by
  cases v with
  | list items => rw [arranged, if_neg (by rw [h]; exact Bool.false_ne_true)]
  | table entries => rw [arranged, if_neg (by rw [h]; exact Bool.false_ne_true)]
  | null | bool | whole | double | text => rfl

end Value

namespace Document

/-- A document as TOML holds it. The root has no header, but it is written as a table with one. -/
def arranged (doc : Document) : Document := ⟨Value.arrangedEntries doc.entries⟩

/-- In a date nothing is found that could be arranged. -/
theorem lookUp_date {entries : List (String × Value)} {stamp : String}
    (h : (Value.table entries).datetime? = some stamp) (key : Key) (path : List String) :
    (lookUp key path entries).map Value.arranged = lookUp key path entries := by
  rw [Value.datetime?_eq_some_iff] at h
  cases h
  cases path with
  | nil => rfl
  | cons segment rest =>
    cases rest with
    | nil =>
      rw [lookUp, Entries.find?]
      split
      · next he =>
        split at he <;> cases he
        rfl
      · rfl
    | cons second more =>
      rw [lookUp, Entries.find?]
      · split
        · next he => split at he <;> cases he
        · rfl
        · rfl
      · exact List.cons_ne_nil _ _

theorem lookUp_arrangedEntries (key : Key) (path : List String) {entries : List (String × Value)}
    (hd : (entries.map Prod.fst).Nodup)

    (hbelow : ∀ inner, (∃ entry ∈ entries, (Value.table inner).IsPart entry.2) →
      (inner.map Prod.fst).Nodup) :
    lookUp key path (Value.arrangedEntries entries) =
      (lookUp key path entries).map Value.arranged := by
  induction path generalizing entries with
  | nil => rfl
  | cons segment rest ih =>
    have hfind := Entries.find?_sectionsLast (fun _ => Value.arranged_of_plain) hd segment
    cases rest with
    | nil =>
      rw [lookUp, lookUp, Value.arrangedEntries, hfind]
      cases Entries.find? segment entries <;> rfl
    | cons second more =>
      rw [lookUp, lookUp, Value.arrangedEntries, hfind]
      · cases hv : Entries.find? segment entries with
        | none => rfl
        | some v =>
          cases v with
          | table inner =>
            have hm := Entries.mem_of_find? hv
            cases hh : (Value.table inner).hasHeaders with
            | true =>
              rw [Option.map_some, Value.arranged_table hh]
              refine ih (hbelow inner ⟨_, hm, .self⟩) fun deeper => ?_
              rintro ⟨entry, he, hp⟩
              exact hbelow deeper ⟨_, hm, .entry he hp⟩
            | false =>
              obtain ⟨stamp, hstamp⟩ := Value.exists_datetime?_of_plain hh
              rw [Option.map_some, Value.arranged_of_plain hh]
              exact (lookUp_date hstamp key _).symm
          | list items =>
            obtain ⟨arranged, ha⟩ := Value.exists_arranged_list items
            rw [Option.map_some, ha]
            rfl
          | null | bool | whole | double | text => rfl
      all_goals exact List.cons_ne_nil _ _

/-- **Every key finds in an arranged document what it finds in the document**, arranged, and where
it finds nothing the fault is the same. -/
theorem get_arranged {doc : Document} (h : doc.DistinctNames) (key : Key) :
    doc.arranged.get key = (doc.get key).map Value.arranged :=
  lookUp_arrangedEntries key key.segments h.root fun inner hp => h.below inner hp

end Document

namespace Toml

/-! ## Items -/

namespace Item

mutual

/-- An item as TOML holds it. -/
def arranged : Item → Item
  | .list items => if (Item.list items).hasHeaders then .list (arrangedItems items) else .list items
  | .table entries =>
    .table (entries.filter (fun entry => !entry.2.hasHeaders) ++ arrangedSections entries)
  | item => item

def arrangedItems : List Item → List Item
  | [] => []
  | first :: rest => arranged first :: arrangedItems rest

def arrangedSections : List (String × Item) → List (String × Item)
  | [] => []
  | (name, item) :: rest =>
    if item.hasHeaders then (name, arranged item) :: arrangedSections rest
    else arrangedSections rest

end

def arrangedEntries (entries : List (String × Item)) : List (String × Item) :=
  Entries.sectionsLast hasHeaders arranged entries

theorem arrangedItems_eq_map (items : List Item) : arrangedItems items = items.map arranged := by
  induction items with
  | nil => rfl
  | cons first rest ih => rw [arrangedItems, List.map_cons, ih]

theorem arrangedSections_eq (entries : List (String × Item)) :
    arrangedSections entries =
      (entries.filter fun entry => entry.2.hasHeaders).map fun entry =>
        (entry.1, arranged entry.2) := by
  induction entries with
  | nil => rfl
  | cons entry rest ih =>
    rw [arrangedSections]
    split
    · next hh => rw [List.filter_cons_of_pos (by exact hh), List.map_cons, ih]
    · next hh => rw [List.filter_cons_of_neg (by exact hh), ih]

theorem arranged_table (entries : List (String × Item)) :
    (Item.table entries).arranged = .table (arrangedEntries entries) := by
  rw [arranged, arrangedSections_eq]
  rfl

theorem arranged_list {items : List Item} (h : (Item.list items).hasHeaders = true) :
    (Item.list items).arranged = .list (items.map arranged) := by
  rw [arranged, if_pos h, arrangedItems_eq_map]

theorem arranged_of_plain {item : Item} (h : item.hasHeaders = false) : item.arranged = item := by
  cases item with
  | list items => rw [arranged, if_neg (by rw [h]; exact Bool.false_ne_true)]
  | table entries => exact absurd h (by simp [hasHeaders])
  | text | whole | double | notFinite | bool | datetime => rfl

theorem isTable_arranged (item : Item) : item.arranged.isTable = item.isTable := by
  cases item with
  | list items =>
    rw [arranged]
    split <;> rfl
  | table entries => rw [arranged_table]; rfl
  | text | whole | double | notFinite | bool | datetime => rfl

theorem hasHeaders_arranged (item : Item) : item.arranged.hasHeaders = item.hasHeaders := by
  cases item with
  | list items =>
    cases hh : (Item.list items).hasHeaders with
    | true =>
      rw [arranged_list hh, ← hh, hasHeaders, hasHeaders, List.isEmpty_map, List.all_map]
      have hsame : isTable ∘ arranged = isTable := funext isTable_arranged
      rw [hsame]
    | false => rw [arranged_of_plain hh, hh]
  | table entries => rw [arranged_table]; rfl
  | text | whole | double | notFinite | bool | datetime => rfl

end Item

/-! ## The text of an arranged item -/

theorem plainLines_append (before after : List (String × Item)) :
    plainLines (before ++ after) = plainLines before ++ plainLines after := by
  induction before with
  | nil => rfl
  | cons entry rest ih =>
    rw [List.cons_append, plainLines, plainLines, ih]
    split
    · rfl
    · simp only [List.append_assoc, List.cons_append]

theorem plainLines_filter (entries : List (String × Item)) :
    plainLines (entries.filter fun entry => !entry.2.hasHeaders) = plainLines entries := by
  induction entries with
  | nil => rfl
  | cons entry rest ih =>
    cases hh : entry.2.hasHeaders with
    | true => rw [List.filter_cons_of_neg (by simp [hh]), plainLines, if_pos hh, ih]
    | false =>
      rw [List.filter_cons_of_pos (by simp [hh]), plainLines, plainLines, ih]

theorem plainLines_of_headers {entries : List (String × Item)}
    (h : ∀ entry ∈ entries, entry.2.hasHeaders = true) :
    plainLines entries = [] := by
  induction entries with
  | nil => rfl
  | cons entry rest ih =>
    obtain ⟨hentry, hrest⟩ := List.forall_mem_cons.1 h
    rw [plainLines, if_pos hentry, ih hrest]

theorem sections_append (path : List String) (before after : List (String × Item)) :
    sections path (before ++ after) = sections path before ++ sections path after := by
  induction before with
  | nil => rfl
  | cons entry rest ih => rw [List.cons_append, sections, sections, ih, List.append_assoc]

theorem itemSections_of_plain (path : List String) {item : Item} (h : item.hasHeaders = false) :
    itemSections path item = [] := by
  cases item with
  | list items => rw [itemSections, if_neg (by rw [h]; exact Bool.false_ne_true)]
  | table entries => exact absurd h (by simp [Item.hasHeaders])
  | text | whole | double | notFinite | bool | datetime => rfl

theorem sections_of_plain (path : List String) {entries : List (String × Item)}
    (h : ∀ entry ∈ entries, entry.2.hasHeaders = false) : sections path entries = [] := by
  induction entries with
  | nil => rfl
  | cons entry rest ih =>
    obtain ⟨hentry, hrest⟩ := List.forall_mem_cons.1 h
    rw [sections, itemSections_of_plain _ hentry, ih hrest]
    rfl

theorem needsHeader_iff (entries : List (String × Item)) :
    needsHeader entries = true ↔ entries = [] ∨ ∃ entry ∈ entries, entry.2.hasHeaders = false := by
  rw [needsHeader, Bool.or_eq_true, List.isEmpty_iff, List.any_eq_true]
  simp only [Bool.not_eq_true']

theorem needsHeader_arrangedEntries (entries : List (String × Item)) :
    needsHeader (Item.arrangedEntries entries) = needsHeader entries := by
  rw [Bool.eq_iff_iff, needsHeader_iff, needsHeader_iff]
  have hnil : Item.arrangedEntries entries = [] ↔ entries = [] := by
    have hl := (@Entries.names_sectionsLast _ Item.hasHeaders Item.arranged entries).length_eq
    rw [List.length_map, List.length_map] at hl
    rw [← List.length_eq_zero_iff, ← List.length_eq_zero_iff, Item.arrangedEntries, hl]
  rw [hnil]
  refine or_congr_right ⟨?_, ?_⟩
  · rintro ⟨entry, hm, hh⟩
    rcases Entries.mem_sectionsLast hm with ⟨hentry, -⟩ | ⟨origin, ho, hheaders, rfl⟩
    · exact ⟨entry, hentry, hh⟩
    · rw [Item.hasHeaders_arranged, hheaders] at hh
      exact absurd hh (by simp)
  · rintro ⟨entry, hm, hh⟩
    exact ⟨entry, List.mem_append_left _ (List.mem_filter.2 ⟨hm, by rw [hh]; rfl⟩), hh⟩

theorem plainLines_arrangedEntries (entries : List (String × Item)) :
    plainLines (Item.arrangedEntries entries) = plainLines entries := by
  have hheaders : plainLines ((entries.filter fun entry => entry.2.hasHeaders).map
      fun entry => (entry.1, entry.2.arranged)) = [] := by
    refine plainLines_of_headers fun entry hm => ?_
    obtain ⟨origin, ho, rfl⟩ := List.mem_map.1 hm
    rw [Item.hasHeaders_arranged]
    exact (List.mem_filter.1 ho).2
  rw [Item.arrangedEntries, Entries.sectionsLast, plainLines_append, plainLines_filter, hheaders,
    List.append_nil]

theorem sections_arrangedEntries (path : List String) {entries : List (String × Item)}

    (h : ∀ entry ∈ entries,
      ∀ path, itemSections path entry.2.arranged = itemSections path entry.2) :
    sections path (Item.arrangedEntries entries) = sections path entries := by
  have hplain : sections path (entries.filter fun entry => !entry.2.hasHeaders) = [] := by
    refine sections_of_plain path fun entry hm => ?_
    have hh := (List.mem_filter.1 hm).2
    simpa using hh
  rw [Item.arrangedEntries, Entries.sectionsLast, sections_append, hplain, List.nil_append]
  induction entries with
  | nil => rfl
  | cons entry rest ih =>
    obtain ⟨hentry, hrest⟩ := List.forall_mem_cons.1 h
    have hsections :=
      ih hrest (sections_of_plain path fun entry hm => by simpa using (List.mem_filter.1 hm).2)
    rw [sections]
    cases hh : entry.2.hasHeaders with
    | true => rw [List.filter_cons_of_pos (by exact hh), List.map_cons, sections, hentry, hsections]
    | false =>
      rw [List.filter_cons_of_neg (by rw [hh]; exact Bool.false_ne_true), hsections,
        itemSections_of_plain _ hh, List.nil_append]

end Toml

end Sweep
