import Sweep.Proofs.Document.Names
import Sweep.Proofs.Toml.Items

/-!
# What lies in a draft

All scalars in an item can have one property and all names another (`Item.Every`). A draft has them
if the item does that it will be when it is finished, and an edit keeps them if it adds no other
names and scalars: editing the table at a path (`Keeps.editAt`), opening a section, and giving a
name its item.

So carrying out a statement adds only the names and scalars of that statement (`every_of_step`), and
carrying out all statements of a text only those of the text (`every_of_steps`).
-/

set_option autoImplicit false

namespace Sweep.Toml

namespace Item

/-! ## Parts of an item -/

/-- An item lies in another one, or is that item. -/
inductive IsPart (part : Item) : Item → Prop where
  | self : IsPart part part
  | item {items : List Item} {item : Item} : item ∈ items → IsPart part item →
      IsPart part (.list items)
  | entry {entries : List (String × Item)} {entry : String × Item} : entry ∈ entries →
      IsPart part entry.2 → IsPart part (.table entries)

/-- Induction over items, with the hypothesis for all items of a list and all entries of a table. -/
@[induction_eliminator]
theorem induct {motive : Item → Prop} (text : ∀ s, motive (.text s))
    (whole : ∀ n, motive (.whole n)) (double : ∀ x, motive (.double x))
    (notFinite : motive .notFinite) (bool : ∀ b, motive (.bool b))
    (datetime : ∀ d, motive (.datetime d))
    (list : ∀ items, (∀ item ∈ items, motive item) → motive (.list items))
    (table : ∀ entries, (∀ entry ∈ entries, motive entry.2) → motive (.table entries))
    (item : Item) : motive item :=
  match item with
  | .text s => text s
  | .whole n => whole n
  | .double x => double x
  | .notFinite => notFinite
  | .bool b => bool b
  | .datetime d => datetime d
  | .list items =>
    list items fun item _ => induct text whole double notFinite bool datetime list table item
  | .table entries =>
    table entries fun entry _ => induct text whole double notFinite bool datetime list table entry.2
termination_by sizeOf item
decreasing_by
  · rename_i hm
    have := List.sizeOf_lt_of_mem hm
    simp only [Item.list.sizeOf_spec]
    omega
  · rename_i hm
    have hs := List.sizeOf_lt_of_mem hm
    have he : sizeOf entry = 1 + sizeOf entry.1 + sizeOf entry.2 := rfl
    simp only [Item.table.sizeOf_spec]
    omega

/-- An item without items of its own. -/
def IsScalar : Item → Prop
  | .list _ => False
  | .table _ => False
  | _ => True

/-- All scalars in an item have one property, and all names another. -/
inductive Every (leaf : Item → Prop) (name : String → Prop) : Item → Prop where
  | scalar {item : Item} : item.IsScalar → leaf item → Every leaf name item
  | list {items : List Item} : (∀ item ∈ items, Every leaf name item) →
      Every leaf name (.list items)
  | table {entries : List (String × Item)} : (∀ entry ∈ entries, name entry.1) →
      (∀ entry ∈ entries, Every leaf name entry.2) → Every leaf name (.table entries)

section Every

variable {leaf : Item → Prop} {name : String → Prop}

theorem every_list_iff {items : List Item} :
    (Item.list items).Every leaf name ↔ ∀ item ∈ items, item.Every leaf name := by
  constructor
  · intro h
    cases h with
    | scalar hs _ => exact hs.elim
    | list hitems => exact hitems
  · exact .list

theorem every_table_iff {entries : List (String × Item)} :
    (Item.table entries).Every leaf name ↔
      ∀ entry ∈ entries, name entry.1 ∧ entry.2.Every leaf name := by
  constructor
  · intro h
    cases h with
    | scalar hs _ => exact hs.elim
    | table hnames hentries => exact fun entry hm => ⟨hnames entry hm, hentries entry hm⟩
  · exact fun h => .table (fun entry hm => (h entry hm).1) fun entry hm => (h entry hm).2

theorem every_scalar_iff {item : Item} (hs : item.IsScalar) : item.Every leaf name ↔ leaf item := by
  constructor
  · intro h
    cases h with
    | scalar _ hl => exact hl
    | list => exact hs.elim
    | table => exact hs.elim
  · exact .scalar hs

end Every

end Item

/-! ## Drafts -/

theorem finishEntries_eq_map (entries : DraftEntries) :
    Draft.finishEntries entries = entries.map fun entry => (entry.1, entry.2.finish) := by
  induction entries with
  | nil => rfl
  | cons entry rest ih => rw [Draft.finishEntries, ih, List.map_cons]

theorem finishElements_eq_map (tables : List DraftEntries) :
    Draft.finishElements tables = tables.map fun entries =>
      .table (Draft.finishEntries entries) := by
  induction tables with
  | nil => rfl
  | cons entries rest ih => rw [Draft.finishElements, ih, List.map_cons]

namespace DraftEntries

variable {leaf : Item → Prop} {name : String → Prop}

/-- All scalars that a draft will have when it is finished have one property, and all names
another. -/
def Every (leaf : Item → Prop) (name : String → Prop) (entries : DraftEntries) : Prop :=
  ∀ entry ∈ entries, name entry.1 ∧ entry.2.finish.Every leaf name

theorem every_nil : Every leaf name [] := fun _ hm => absurd hm List.not_mem_nil

theorem every_finishEntries_iff {entries : DraftEntries} :
    (Item.table (Draft.finishEntries entries)).Every leaf name ↔ entries.Every leaf name := by
  rw [Item.every_table_iff, finishEntries_eq_map, List.forall_mem_map]
  rfl

theorem every_finish_table_iff {origin : Origin} {entries : DraftEntries} :
    (Draft.table origin entries).finish.Every leaf name ↔ entries.Every leaf name := by
  rw [Draft.finish]
  exact every_finishEntries_iff

theorem every_finish_elements_iff {elements : List DraftEntries} :
    (Draft.elements elements).finish.Every leaf name ↔
      ∀ entries ∈ elements, entries.Every leaf name := by
  rw [Draft.finish, Item.every_list_iff, finishElements_eq_map, List.forall_mem_map]
  exact forall₂_congr fun _ _ => every_finishEntries_iff

theorem Every.append {entries : DraftEntries} (h : entries.Every leaf name) {new : String}
    (hn : name new) {draft : Draft} (hd : draft.finish.Every leaf name) :
    DraftEntries.Every leaf name (entries ++ [(new, draft)]) := by
  intro entry hm
  rcases List.mem_append.1 hm with hm | hm
  · exact h entry hm
  · rw [List.mem_singleton.1 hm]
    exact ⟨hn, hd⟩

theorem Every.assign {entries : DraftEntries} (h : entries.Every leaf name) (place : String)
    {draft : Draft} (hd : draft.finish.Every leaf name) :
    DraftEntries.Every leaf name (Entries.assign place draft entries) := by
  induction entries with
  | nil => exact every_nil
  | cons entry rest ih =>
    obtain ⟨hentry, hrest⟩ := List.forall_mem_cons.1 h
    rw [Entries.assign]
    split
    · exact List.forall_mem_cons.2 ⟨⟨hentry.1, hd⟩, hrest⟩
    · exact List.forall_mem_cons.2 ⟨hentry, ih hrest⟩

theorem Every.erase {entries : DraftEntries} (h : entries.Every leaf name) (gone : String) :
    DraftEntries.Every leaf name (Entries.erase gone entries) := by
  induction entries with
  | nil => exact every_nil
  | cons entry rest ih =>
    obtain ⟨hentry, hrest⟩ := List.forall_mem_cons.1 h
    rw [Entries.erase]
    split
    · exact hrest
    · exact List.forall_mem_cons.2 ⟨hentry, ih hrest⟩

theorem Every.found {entries : DraftEntries} (h : entries.Every leaf name) {place : String}
    {draft : Draft} (hf : Entries.find? place entries = some draft) :
    draft.finish.Every leaf name :=
  (h _ (Entries.mem_of_find? hf)).2

/-! ## Edits -/

/-- An edit keeps what all scalars and names have. -/
def Keeps (leaf : Item → Prop) (name : String → Prop) (edit : DraftEntries → Option DraftEntries) :
    Prop :=
  ∀ {entries done : DraftEntries}, edit entries = some done → entries.Every leaf name →
    done.Every leaf name

theorem Keeps.editLast {edit : DraftEntries → Option DraftEntries} (he : Keeps leaf name edit)
    {elements done : List DraftEntries} (h : DraftEntries.editLast edit elements = some done)
    (hall : ∀ entries ∈ elements, entries.Every leaf name) :
    ∀ entries ∈ done, entries.Every leaf name := by
  induction elements generalizing done with
  | nil => cases h
  | cons first rest ih =>
    obtain ⟨hfirst, hrest⟩ := List.forall_mem_cons.1 hall
    cases rest with
    | nil =>
      obtain ⟨last, hl, rfl⟩ := Option.map_eq_some_iff.1 h
      exact List.forall_mem_singleton.2 (he hl hfirst)
    | cons second more =>
      obtain ⟨others, ho, rfl⟩ := Option.map_eq_some_iff.1 h
      exact List.forall_mem_cons.2 ⟨hfirst, ih ho hrest⟩

/-- **An edit at a path keeps what the edit of the table there keeps**, if the names on the path are
such names too. -/
theorem Keeps.editAt {edit : DraftEntries → Option DraftEntries} (he : Keeps leaf name edit)
    {path : List String} (hp : ∀ step ∈ path, name step) :
    Keeps leaf name (DraftEntries.editAt edit path) := by
  induction path with
  | nil => exact he
  | cons step rest ih =>
    obtain ⟨hstep, hrest⟩ := List.forall_mem_cons.1 hp
    intro entries done h hall
    rw [DraftEntries.editAt] at h
    split at h
    · obtain ⟨inner, hi, rfl⟩ := Option.map_eq_some_iff.1 h
      exact hall.append hstep (every_finish_table_iff.2 (ih hrest hi every_nil))
    · next origin inner hf =>
      obtain ⟨edited, hi, rfl⟩ := Option.map_eq_some_iff.1 h
      exact hall.assign step
        (every_finish_table_iff.2 (ih hrest hi (every_finish_table_iff.1 (hall.found hf))))
    · next elements hf =>
      obtain ⟨edited, hi, rfl⟩ := Option.map_eq_some_iff.1 h
      exact hall.assign step (every_finish_elements_iff.2
        (Keeps.editLast (ih hrest) hi (every_finish_elements_iff.1 (hall.found hf))))
    · cases h

theorem keeps_openTable {new : String} (hn : name new) : Keeps leaf name (openTable new) := by
  intro entries done h hall
  rw [openTable] at h
  split at h
  · cases h
    exact hall.append hn (every_finish_table_iff.2 every_nil)
  · next inner hf =>
    cases h
    exact (hall.erase new).append hn
      (every_finish_table_iff.2 (every_finish_table_iff.1 (hall.found hf)))
  · cases h

theorem keeps_openElement {new : String} (hn : name new) : Keeps leaf name (openElement new) := by
  intro entries done h hall
  rw [openElement] at h
  split at h
  · cases h
    exact hall.append hn (every_finish_elements_iff.2 (List.forall_mem_singleton.2 every_nil))
  · next elements hf =>
    cases h
    refine hall.assign new (every_finish_elements_iff.2 fun entries hm => ?_)
    rcases List.mem_append.1 hm with hm | hm
    · exact every_finish_elements_iff.1 (hall.found hf) entries hm
    · rw [List.mem_singleton.1 hm]
      exact every_nil
  · cases h

theorem keeps_assignDotted {new : String} (hn : name new) {item : Item} (hi : item.Every leaf name)
    {path : List String} (hp : ∀ step ∈ path, name step) :
    Keeps leaf name (assignDotted new item path) := by
  induction path with
  | nil =>
    intro entries done h hall
    rw [assignDotted] at h
    split at h
    · cases h
      exact hall.append hn hi
    · cases h
  | cons step rest ih =>
    obtain ⟨hstep, hrest⟩ := List.forall_mem_cons.1 hp
    intro entries done h hall
    have hinner : ∀ {origin inner edited}, Entries.find? step entries = some (.table origin inner) →
        assignDotted new item rest inner = some edited →
        (Draft.table origin edited).finish.Every leaf name :=
      fun hf he => every_finish_table_iff.2 (ih hrest he (every_finish_table_iff.1 (hall.found hf)))
    rw [assignDotted] at h
    split at h
    · obtain ⟨inner, he, rfl⟩ := Option.map_eq_some_iff.1 h
      exact hall.append hstep (every_finish_table_iff.2 (ih hrest he every_nil))
    · cases h
    · next inner hf =>
      split at h
      · cases h
      · obtain ⟨edited, he, rfl⟩ := Option.map_eq_some_iff.1 h
        exact hall.assign step (hinner hf he)
    · next inner hf =>
      obtain ⟨edited, he, rfl⟩ := Option.map_eq_some_iff.1 h
      exact hall.assign step (hinner hf he)
    · next elements hf =>
      split at h
      · cases h
      · obtain ⟨edited, he, rfl⟩ := Option.map_eq_some_iff.1 h
        exact hall.assign step (every_finish_elements_iff.2
          (Keeps.editLast (ih hrest) he (every_finish_elements_iff.1 (hall.found hf))))
    · cases h

end DraftEntries

open DraftEntries

/-! ## Statements -/

/-- The names and scalars of a statement have their properties. -/
def Statement.Every (leaf : Item → Prop) (name : String → Prop) : Statement → Prop
  | .assign path new item => (∀ step ∈ path, name step) ∧ name new ∧ item.Every leaf name
  | .table path new => (∀ step ∈ path, name step) ∧ name new
  | .element path new => (∀ step ∈ path, name step) ∧ name new

/-- What is there, and the path of the section that is open, consist of such names and scalars. -/
def Progress.Every (leaf : Item → Prop) (name : String → Prop) (p : Progress) : Prop :=
  p.entries.Every leaf name ∧ ∀ step ∈ p.path, name step

section Carrying

variable {leaf : Item → Prop} {name : String → Prop}

/-- **Carrying out a statement** adds only its own names and scalars. -/
theorem every_of_step {p p' : Progress} {statement : Statement} (h : p.step statement = some p')
    (hs : statement.Every leaf name) (hp : p.Every leaf name) : p'.Every leaf name := by
  have hopened : ∀ {path : List String} {new : String}, (∀ step ∈ path, name step) → name new →
      ∀ step ∈ path ++ [new], name step := by
    intro path new hpath hnew step hm
    rcases List.mem_append.1 hm with hm | hm
    · exact hpath step hm
    · rw [List.mem_singleton.1 hm]
      exact hnew
  cases statement with
  | assign path new item =>
    obtain ⟨hpath, hnew, hitem⟩ := hs
    obtain ⟨entries, he, rfl⟩ := Option.map_eq_some_iff.1 h
    exact ⟨Keeps.editAt (keeps_assignDotted hnew hitem hpath) hp.2 he hp.1, hp.2⟩
  | table path new =>
    obtain ⟨entries, he, rfl⟩ := Option.map_eq_some_iff.1 h
    exact ⟨Keeps.editAt (keeps_openTable hs.2) hs.1 he hp.1, hopened hs.1 hs.2⟩
  | element path new =>
    obtain ⟨entries, he, rfl⟩ := Option.map_eq_some_iff.1 h
    exact ⟨Keeps.editAt (keeps_openElement hs.2) hs.1 he hp.1, hopened hs.1 hs.2⟩

/-- **So does carrying out all statements of a text.** -/
theorem every_of_steps {statements : List Statement} {p p' : Progress}
    (h : statements.foldlM Progress.step p = some p')
    (hs : ∀ statement ∈ statements, statement.Every leaf name) (hp : p.Every leaf name) :
    p'.Every leaf name := by
  induction statements generalizing p with
  | nil =>
    cases h
    exact hp
  | cons statement rest ih =>
    obtain ⟨hfirst, hrest⟩ := List.forall_mem_cons.1 hs
    rw [List.foldlM_cons] at h
    obtain ⟨next, hnext, h⟩ := Option.bind_eq_some_iff.1 h
    exact ih h hrest (every_of_step hnext hfirst hp)

end Carrying

end Sweep.Toml
