import Sweep.Proofs.Toml.Items
import Sweep.Proofs.Toml.Statements

/-!
# Sections, carried out on a draft

The sections of a document come depth first, so all that is written for one table comes while the
table is the last thing at its place in the draft, and nothing that was there before is ever touched
again. That place is told by two conditions. `Leads path around` says that an edit at the path is an
edit of what `around` is given; and a draft `Opens` as some entries if an edit at the path acts on
these entries, which also covers a table that is not there yet and is made in passing.

With them the sections of an item do one thing (`runs_sections`): they add one entry, whose finished
item is the item arranged. The induction is on items, along the headers.
-/

set_option autoImplicit false

namespace Sweep.Toml

namespace DraftEntries

/-! ## Places -/

theorem editLast_append (edit : DraftEntries → Option DraftEntries) (before : List DraftEntries)
    (last : DraftEntries) :
    editLast edit (before ++ [last]) = (edit last).map fun last => before ++ [last] := by
  induction before with
  | nil => rfl
  | cons first rest ih =>
    rw [List.cons_append, editLast, ih, Option.map_map]
    · rfl
    · exact List.append_ne_nil_of_right_ne_nil _ (List.cons_ne_nil _ _)

/-- A longer path leads from the end of a shorter one. -/
theorem editAt_append (edit : DraftEntries → Option DraftEntries) (path more : List String)
    (entries : DraftEntries) :
    editAt edit (path ++ more) entries = editAt (editAt edit more) path entries := by
  induction path generalizing entries with
  | nil => rfl
  | cons name rest ih =>
    rw [List.cons_append, editAt, editAt]
    split
    · rw [ih]
    · rw [ih]
    · have hsame : editAt edit (rest ++ more) = editAt (editAt edit more) rest := funext ih
      rw [hsame]
    · rfl

/-- An edit at the path is an edit of what `around` is given. -/
def Leads (path : List String) (around : DraftEntries → DraftEntries) : Prop :=
  ∀ edit entries, editAt edit path (around entries) = (edit entries).map around

/-- At the path a draft is edited as if these entries were there. -/
def Opens (path : List String) (root entries : DraftEntries)
    (around : DraftEntries → DraftEntries) : Prop :=
  ∀ edit, editAt edit path root = (edit entries).map around

theorem leads_nil : Leads [] id := by
  intro edit entries
  rw [editAt, Option.map_id]
  rfl

theorem Leads.opens {path : List String} {around : DraftEntries → DraftEntries}
    (h : Leads path around) (entries : DraftEntries) :
    Opens path (around entries) entries around := fun edit => h edit entries

section Deeper

variable {path : List String} {around : DraftEntries → DraftEntries} {before : DraftEntries}
    {name : String}

theorem Leads.table (h : Leads path around) (hn : name ∉ before.map Prod.fst) (origin : Origin) :
    Leads (path ++ [name]) fun inner => around (before ++ [(name, .table origin inner)]) := by
  intro edit entries
  rw [editAt_append, h, editAt, Entries.find?_last hn]
  simp only
  rw [editAt, Option.map_map]
  refine congrArg₂ _ (funext fun inner => ?_) rfl
  simp only [Function.comp_apply, Entries.assign_last hn]

theorem Leads.element (h : Leads path around) (hn : name ∉ before.map Prod.fst)
    (done : List DraftEntries) :
    Leads (path ++ [name]) fun inner =>
      around (before ++ [(name, .elements (done ++ [inner]))]) := by
  intro edit entries
  rw [editAt_append, h, editAt, Entries.find?_last hn]
  simp only
  rw [editLast_append, editAt, Option.map_map, Option.map_map]
  refine congrArg₂ _ (funext fun inner => ?_) rfl
  simp only [Function.comp_apply, Entries.assign_last hn]

/-- A table that is not there yet is made in passing, empty. -/
theorem Opens.passing {root : DraftEntries} (h : Opens path root before around)
    (hn : name ∉ before.map Prod.fst) :
    Opens (path ++ [name]) root [] fun inner =>
      around (before ++ [(name, .table .passedThrough inner)]) := by
  intro edit
  rw [editAt_append, h, editAt, Entries.find?_of_notMem hn]
  simp only
  rw [editAt, Option.map_map]
  rfl

end Deeper

end DraftEntries

open DraftEntries

/-! ## Entries of an open section -/

/-- **The plain entries of a table** are added in order. -/
theorem runs_plainLines {path : List String} {around : DraftEntries → DraftEntries}
    (hl : Leads path around) {entries : List (String × Item)} {before : DraftEntries}
    (hd : (before.map Prod.fst ++ entries.map Prod.fst).Nodup)
    (h : ∀ entry ∈ entries, entry.2.hasHeaders = false → entry.2.InLine nestingLimit) :
    Runs (plainLines entries) ⟨around before, path⟩
      ⟨around (before ++ (entries.filter fun entry => !entry.2.hasHeaders).map fun entry =>
          (entry.1, .item entry.2)),
        path⟩ := by
  induction entries generalizing before with
  | nil =>
    rw [List.filter_nil, List.map_nil, List.append_nil]
    exact Runs.nil _
  | cons entry rest ih =>
    obtain ⟨hentry, hrest⟩ := List.forall_mem_cons.1 h
    have hskip : (before.map Prod.fst ++ rest.map Prod.fst).Nodup :=
      hd.sublist (List.Sublist.append_left (List.sublist_cons_self _ _) _)
    rw [plainLines]
    -- an entry with headers has no line here, and its name stays free for its section
    cases hh : entry.2.hasHeaders with
    | true =>
      rw [if_pos rfl, List.filter_cons_of_neg (by simp [hh])]
      exact ih hskip hrest
    | false =>
      have hnew : entry.1 ∉ before.map Prod.fst := by
        rw [List.nodup_append'] at hd
        exact fun hm => hd.2.2 hm List.mem_cons_self
      have hedit : editAt (assignDotted entry.1 entry.2 []) path (around before) =
          some (around (before ++ [(entry.1, .item entry.2)])) := by
        rw [hl, assignDotted, Entries.find?_of_notMem hnew]
        rfl
      have hline := runs_entry entry.1 (hentry hh) (p := ⟨around before, path⟩) hedit
      have hd' :
          ((before ++ [(entry.1, Draft.item entry.2)]).map Prod.fst ++
            rest.map Prod.fst).Nodup := by
        rw [List.map_append, List.append_assoc]
        exact hd
      have hmore := ih hd' hrest
      rw [if_neg Bool.false_ne_true, List.filter_cons_of_pos (by simp [hh]), List.map_cons]
      rw [List.append_assoc] at hmore
      have hruns := hline.append hmore
      simpa only [List.append_assoc, List.cons_append, List.nil_append,
        List.singleton_append] using hruns

/-! ## Sections -/

/-- The sections of an item add one entry, which finishes to the item arranged. -/
def Adds (path : List String) (name : String) (item : Item) : Prop :=
  ∀ ⦃root before : DraftEntries⦄ ⦃around : DraftEntries → DraftEntries⦄,
    name ∉ before.map Prod.fst →
    Opens path root before around → Leads path around → ∀ opened, ∃ draft opened',
      draft.finish = item.arranged ∧
        Runs (itemSections (path ++ [name]) item) ⟨root, opened⟩
          ⟨around (before ++ [(name, draft)]), opened'⟩

/-- The lines and sections of a table fill its section, once that is open. -/
def Fills (path : List String) (entries : List (String × Item)) : Prop :=
  ∀ ⦃around : DraftEntries → DraftEntries⦄, Leads path around → ∃ drafts opened',
    Draft.finishEntries drafts = Item.arrangedEntries entries ∧
      Runs (plainLines entries ++ sections path entries) ⟨around [], path⟩ ⟨around drafts, opened'⟩

theorem finishEntries_append (before after : DraftEntries) :
    Draft.finishEntries (before ++ after) =
      Draft.finishEntries before ++ Draft.finishEntries after := by
  induction before with
  | nil => rfl
  | cons entry rest ih =>
    rw [List.cons_append, Draft.finishEntries, Draft.finishEntries, ih, List.cons_append]

/-- The sections of the entries of a table add those that need a header, in order. -/
theorem runs_sections {path : List String} {around : DraftEntries → DraftEntries}
    (hl : Leads path around) {entries : List (String × Item)} (hd : (entries.map Prod.fst).Nodup)
    (h : ∀ entry ∈ entries, entry.2.hasHeaders = true → Adds path entry.1 entry.2)
    {before : DraftEntries}
    (hnew : ∀ entry ∈ entries, entry.2.hasHeaders = true → entry.1 ∉ before.map Prod.fst)
    (opened : List String) :
    ∃ drafts opened',
      Draft.finishEntries drafts =
          (entries.filter fun entry => entry.2.hasHeaders).map (fun entry =>
            (entry.1, entry.2.arranged)) ∧
        Runs (sections path entries) ⟨around before, opened⟩
          ⟨around (before ++ drafts), opened'⟩ := by
  induction entries generalizing before opened with
  | nil =>
    refine ⟨[], opened, rfl, ?_⟩
    rw [List.append_nil]
    exact Runs.nil _
  | cons entry rest ih =>
    obtain ⟨hentry, hrest⟩ := List.forall_mem_cons.1 h
    obtain ⟨hnewEntry, hnewRest⟩ := List.forall_mem_cons.1 hnew
    rw [List.map_cons, List.nodup_cons] at hd
    rw [sections]
    cases hh : entry.2.hasHeaders with
    | false =>
      obtain ⟨drafts, opened', hf, hr⟩ := ih hd.2 hrest hnewRest opened
      refine ⟨drafts, opened', ?_, ?_⟩
      · rw [List.filter_cons_of_neg (by rw [hh]; exact Bool.false_ne_true)]
        exact hf
      · rw [itemSections_of_plain _ hh]
        exact hr
    | true =>
      obtain ⟨draft, opened₁, hfinish, hadd⟩ := hentry hh (hnewEntry hh) (hl.opens before) hl opened
      have hnew' : ∀ other ∈ rest, other.2.hasHeaders = true →
          other.1 ∉ (before ++ [(entry.1, draft)]).map Prod.fst := by
        intro other hm ho
        rw [List.map_append, List.mem_append, not_or]
        refine ⟨hnewRest other hm ho, fun hlast => hd.1 ?_⟩
        rw [← List.mem_singleton.1 hlast]
        exact List.mem_map_of_mem hm
      obtain ⟨drafts, opened', hf, hr⟩ := ih hd.2 hrest hnew' opened₁
      refine ⟨(entry.1, draft) :: drafts, opened', ?_, ?_⟩
      · rw [List.filter_cons_of_pos (by exact hh), List.map_cons, Draft.finishEntries, hfinish, hf]
      · rw [List.append_assoc] at hr
        exact hadd.append hr

/-- **A table is filled** if its plain entries can be read from one line and its sections each add
their entry. -/
theorem fills_of_adds {path : List String} {entries : List (String × Item)}
    (hd : (entries.map Prod.fst).Nodup)
    (hplain : ∀ entry ∈ entries, entry.2.hasHeaders = false → entry.2.InLine nestingLimit)
    (hadds : ∀ entry ∈ entries, entry.2.hasHeaders = true → Adds path entry.1 entry.2) :
    Fills path entries := by
  intro around hl
  have hd' : (([] : DraftEntries).map Prod.fst ++ entries.map Prod.fst).Nodup := hd
  have hlines := runs_plainLines hl hd' hplain
  have hnew : ∀ entry ∈ entries, entry.2.hasHeaders = true → entry.1 ∉
      ((entries.filter fun entry => !entry.2.hasHeaders).map fun entry =>
        (entry.1, Draft.item entry.2)).map Prod.fst := by
    intro entry hm hh hmem
    rw [List.map_map, List.mem_map] at hmem
    obtain ⟨other, ho, hname⟩ := hmem
    obtain ⟨hother, hoh⟩ := List.mem_filter.1 ho
    obtain rfl := List.inj_on_of_nodup_map hd hother hm hname
    rw [hh] at hoh
    exact absurd hoh (by simp)
  obtain ⟨drafts, opened, hf, hr⟩ := runs_sections hl hd hadds hnew path
  refine ⟨_, opened, ?_, hlines.append hr⟩
  rw [finishEntries_append, finishEntries_items, hf]
  rfl

/-- The sections of the elements of an array of tables are added behind those that are there. -/
theorem runs_elements {path : List String} {name : String} (hlimit : path.length < nestingLimit)
    {before : DraftEntries} {around : DraftEntries → DraftEntries} (hn : name ∉ before.map Prod.fst)
    (hl : Leads path around) {tables : List (List (String × Item))} (hne : tables ≠ [])
    (h : ∀ entries ∈ tables, Fills (path ++ [name]) entries) {root : DraftEntries}
    {done : List DraftEntries}
    (hopen : editAt (openElement name) path root =
      some (around (before ++ [(name, .elements (done ++ [[]]))])))
    (opened : List String) :
    ∃ drafts opened', Draft.finishElements drafts =
      tables.map (fun entries => .table (Item.arrangedEntries entries)) ∧
      Runs (elementSections (path ++ [name]) (tables.map .table)) ⟨root, opened⟩
        ⟨around (before ++ [(name, .elements (done ++ drafts))]), opened'⟩ := by
  induction tables generalizing root done opened with
  | nil => exact absurd rfl hne
  | cons entries rest ih =>
    obtain ⟨hentries, hrest⟩ := List.forall_mem_cons.1 h
    have hheader := runs_element hlimit (p := ⟨root, opened⟩) hopen
    obtain ⟨filled, opened₁, hf, hfill⟩ := hentries (hl.element hn done)
    have hfirst := hheader.append hfill
    cases rest with
    | nil =>
      refine ⟨[filled], opened₁, by rw [Draft.finishElements, hf]; rfl, ?_⟩
      have hsections : elementSections (path ++ [name]) ([entries].map Item.table) =
          elementHeader (path ++ [name]) ++
          (plainLines entries ++ sections (path ++ [name]) entries) := by
        rw [List.map_singleton, elementSections, elementSections, List.append_nil,
          List.append_assoc]
      rw [hsections]
      exact hfirst
    | cons second more =>
      have hopen' :
          editAt (openElement name)
            path (around (before ++ [(name, .elements (done ++ [filled]))])) =
          some (around (before ++ [(name, .elements ((done ++ [filled]) ++ [[]]))])) := by
        rw [hl, openElement, Entries.find?_last hn]
        simp only
        rw [Entries.assign_last hn]
        rfl
      obtain ⟨drafts, opened', hfs, hr⟩ := ih (List.cons_ne_nil _ _) hrest hopen' opened₁
      refine ⟨filled :: drafts, opened', ?_, ?_⟩
      · rw [Draft.finishElements, hf, hfs]
        rfl
      · have hsections :
            elementSections (path ++ [name]) ((entries :: second :: more).map Item.table) =
            (elementHeader (path ++ [name]) ++
              (plainLines entries ++ sections (path ++ [name]) entries)) ++
              elementSections (path ++ [name]) ((second :: more).map Item.table) := by
          rw [List.map_cons, elementSections, ← List.append_assoc]
        rw [List.append_assoc] at hr
        rw [hsections]
        exact hfirst.append hr

theorem hasHeaders_map_table {tables : List (List (String × Item))} (h : tables ≠ []) :
    (Item.list (tables.map .table)).hasHeaders = true := by
  cases tables with
  | nil => exact absurd rfl h
  | cons entries rest =>
    rw [Item.hasHeaders, Bool.and_eq_true, List.all_map, List.all_eq_true]
    exact ⟨rfl, fun _ _ => rfl⟩

theorem inLine_of_sectioned {names : Nat} {item : Item} (h : item.Sectioned names)
    (hh : item.hasHeaders = false) :
    item.InLine nestingLimit := by
  cases h with
  | inLine _ hin => exact hin
  | table => exact absurd hh (by simp [Item.hasHeaders])
  | elements hne =>
    rw [hasHeaders_map_table hne] at hh
    exact absurd hh (by simp)

/-- A table with a header is opened by it and then filled. -/
theorem adds_headed {path : List String} (hlimit : path.length < nestingLimit) {name : String}
    {entries : List (String × Item)} (hneeds : needsHeader entries = true)
    (hfills : Fills (path ++ [name]) entries) :
    Adds path name (.table entries) := by
  intro root before around hn hopens hl opened
  have hopen : editAt (openTable name) path root =
      some (around (before ++ [(name, .table .header [])])) := by
    rw [hopens, openTable, Entries.find?_of_notMem hn]
    rfl
  have hheader := runs_table hlimit (p := ⟨root, opened⟩) hopen
  obtain ⟨drafts, opened', hf, hfill⟩ := hfills (hl.table hn .header)
  refine ⟨.table .header drafts, opened', ?_, ?_⟩
  · rw [Draft.finish, hf, Item.arranged_table]
  · rw [itemSections, hneeds, if_pos rfl, List.append_assoc]
    exact hheader.append hfill

/-- A table without a header is made in passing, on the way to the first of its entries. -/
theorem adds_in_passing {path : List String} {name : String} {entries : List (String × Item)}
    (hneeds : needsHeader entries = false) (hd : (entries.map Prod.fst).Nodup)
    (hadds : ∀ entry ∈ entries, entry.2.hasHeaders = true → Adds (path ++ [name]) entry.1 entry.2) :
    Adds path name (.table entries) := by
  intro root before around hn hopens hl opened
  have hheaders : ∀ entry ∈ entries, entry.2.hasHeaders = true := by
    intro entry hm
    by_contra hno
    have hyes := (needsHeader_iff entries).2 (.inr ⟨entry, hm, Bool.eq_false_iff.2 hno⟩)
    rw [hneeds] at hyes
    exact absurd hyes (by simp)
  cases entries with
  | nil => exact absurd hneeds (by simp [needsHeader])
  | cons first rest =>
    obtain ⟨hfirst, -⟩ := List.forall_mem_cons.1 hheaders
    rw [List.map_cons, List.nodup_cons] at hd
    have hleads := hl.table hn .passedThrough
    -- the first section makes the table and its own entry at once; the others find the table there
    obtain ⟨draft, opened₁, hfinish, hadd⟩ :=
      hadds first List.mem_cons_self hfirst List.not_mem_nil (hopens.passing hn) hleads opened
    have hnew :
        ∀ entry ∈ rest, entry.2.hasHeaders = true → entry.1 ∉ [(first.1, draft)].map Prod.fst := by
      intro entry hm _ hmem
      rw [List.map_singleton, List.mem_singleton] at hmem
      exact hd.1 (hmem ▸ List.mem_map_of_mem hm)
    obtain ⟨drafts, opened', hf, hr⟩ := runs_sections hleads hd.2
      (fun entry hm => hadds entry (List.mem_cons_of_mem _ hm)) hnew opened₁
    refine ⟨.table .passedThrough ((first.1, draft) :: drafts), opened', ?_, ?_⟩
    · have hnone : (first :: rest).filter (fun entry => !entry.2.hasHeaders) = [] := by
        rw [List.filter_eq_nil_iff]
        intro entry hm
        simp [hheaders entry hm]
      rw [Draft.finish, Draft.finishEntries, hfinish, hf, Item.arranged_table, Item.arrangedEntries,
        Entries.sectionsLast, hnone, List.filter_cons_of_pos (by exact hfirst), List.map_cons]
      rfl
    · rw [itemSections, hneeds, if_neg Bool.false_ne_true, plainLines_of_headers hheaders, sections]
      exact hadd.append hr

/-- The first element of an array of tables makes the array, and each of them is filled. -/
theorem adds_elements {path : List String} (hlimit : path.length < nestingLimit) {name : String}
    {tables : List (List (String × Item))} (hne : tables ≠ [])
    (hfills : ∀ entries ∈ tables, Fills (path ++ [name]) entries) :
    Adds path name (.list (tables.map .table)) := by
  have hh := hasHeaders_map_table hne
  intro root before around hn hopens hl opened
  have hopen : editAt (openElement name) path root =
      some (around (before ++ [(name, .elements ([] ++ [[]]))])) := by
    rw [hopens, openElement, Entries.find?_of_notMem hn]
    rfl
  obtain ⟨drafts, opened', hf, hr⟩ := runs_elements hlimit hn hl hne hfills hopen opened
  refine ⟨.elements drafts, opened', ?_, ?_⟩
  · rw [Draft.finish, hf, Item.arranged_list hh, List.map_map]
    refine congrArg _ (List.map_congr_left fun entries _ => ?_)
    rw [Function.comp_apply, Item.arranged_table]
  · rw [itemSections, if_pos hh]
    exact hr

/-- **The sections of an item add the item**, arranged, to the table that they are written for. -/
theorem adds_of_sectioned {names : Nat} {item : Item} (h : item.Sectioned names)
    (hh : item.hasHeaders = true) {path : List String} (hlimit : path.length + names ≤ nestingLimit)
    (name : String) : Adds path name item := by
  induction h generalizing path name with
  | inLine hplain _ =>
    rw [hh] at hplain
    exact absurd hplain (by simp)
  | @table names entries hd hentries ih =>
    have hdeeper : (path ++ [name]).length + names ≤ nestingLimit := by
      rw [List.length_append, List.length_singleton]
      omega
    have hadds :
        ∀ entry ∈ entries, entry.2.hasHeaders = true → Adds (path ++ [name]) entry.1 entry.2 :=
      fun entry hm hheaders => ih entry hm hheaders hdeeper entry.1
    cases hneeds : needsHeader entries with
    | true =>
      exact adds_headed (by omega) hneeds
        (fills_of_adds hd (fun entry hm => inLine_of_sectioned (hentries entry hm)) hadds)
    | false => exact adds_in_passing hneeds hd hadds
  | @elements names tables hne hd hentries ih =>
    have hdeeper : (path ++ [name]).length + names ≤ nestingLimit := by
      rw [List.length_append, List.length_singleton]
      omega
    refine adds_elements (by omega) hne fun entries hm => ?_
    exact fills_of_adds (hd entries hm)
      (fun entry he => inLine_of_sectioned (hentries entries hm entry he))
      fun entry he hyes => ih entries hm entry he hyes hdeeper entry.1

end Sweep.Toml
