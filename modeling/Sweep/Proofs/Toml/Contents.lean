import Sweep.Proofs.Toml.Dates
import Sweep.Proofs.Toml.Drafts
import Sweep.Proofs.Toml.Remainders

/-!
# What a text can contain

What holds of every name and of every scalar that can be read somewhere in a text holds of all that
the text denotes (`every_of_readItems?`). The names and scalars are read at ends of the text and
statements are made of them; carrying these out adds no others, and looking for marked tables in the
finished draft adds nothing but dates.

The first thing that comes of it: every whole number of a text is a signed one, and every date is in
range.
-/

set_option autoImplicit false

namespace Sweep.Toml

open DraftEntries

/-! ## Reading -/

/-- What can be read as a scalar at an end of a text has one property, and what can be read as a
name another. -/
structure Readable (leaf : Item → Prop) (name : String → Prop) (source : List Char) : Prop where
  scalar : ∀ {cs after : List Char} {item : Item},
    cs <:+ source → readScalar cs = some (item, after) → leaf item
  name : ∀ {cs after : List Char} {read : String},
    cs <:+ source → readName cs = some (read, after) → name read

/-- A reader leaves an end of the text, and what it gives has a property. -/
def Gives {α : Type} (P : α → Prop) (source : List Char)
    (read : List Char → Option (α × List Char)) : Prop :=
  ∀ {cs after : List Char} {a : α}, cs <:+ source → read cs = some (a, after) → after <:+ cs ∧ P a

theorem signed?_eq_some {n : Int} {item : Item} (h : signed? n = some item) :
    item = .whole n ∧ -0x8000000000000000 ≤ n ∧ n < 0x8000000000000000 := by
  rw [signed?] at h
  split at h
  · next hn =>
    cases h
    exact ⟨rfl, hn⟩
  · cases h

/-- A number that is read is a signed whole number, a double, or no finite number. -/
theorem kind_of_readNumber {cs after : List Char} {item : Item}
    (h : readNumber cs = some (item, after)) :
    (∃ n, item = .whole n ∧ -0x8000000000000000 ≤ n ∧ n < 0x8000000000000000) ∨
      (∃ x, item = .double x) ∨ item = .notFinite := by
  obtain ⟨_, _, -, hbased⟩ | hnotFinite | hmagnitude := cases_of_readNumber h
  · obtain ⟨_, _, n, -, hn⟩ := steps_of_readBased hbased
    exact .inl ⟨n, signed?_eq_some hn⟩
  · obtain ⟨_, -, he⟩ := Option.map_eq_some_iff.1 hnotFinite
    cases he
    exact .inr (.inr rfl)
  · obtain ⟨_, _, _, _, _, -, -, -, ⟨n, hn⟩ | hitem⟩ := steps_of_readMagnitude hmagnitude
    · exact .inl ⟨n, signed?_eq_some hn⟩
    · exact .inr hitem

/-- What a scalar that is read can be. -/
theorem kind_of_readScalar {cs after : List Char} {item : Item}
    (h : readScalar cs = some (item, after)) :
    (∃ s, item = .text s ∧ readString cs = some (s, after)) ∨ (∃ b, item = .bool b) ∨
      (∃ d, item = .datetime d ∧ d.Proper) ∨
      (∃ n, item = .whole n ∧ -0x8000000000000000 ≤ n ∧ n < 0x8000000000000000) ∨
      (∃ x, item = .double x) ∨ item = .notFinite := by
  obtain hstring | ⟨b, _, hb, -⟩ | ⟨d, hd, hdatetime⟩ | hnumber := cases_of_readScalar h
  · exact .inl hstring
  · exact .inr (.inl ⟨b, hb⟩)
  · exact .inr (.inr (.inl ⟨d, hd, proper_of_readDatetime hdatetime⟩))
  · exact .inr (.inr (.inr (kind_of_readNumber hnumber)))

theorem isScalar_of_readScalar {cs after : List Char} {item : Item}
    (h : readScalar cs = some (item, after)) :
    item.IsScalar := by
  obtain ⟨_, rfl, -⟩ | ⟨_, rfl⟩ | ⟨_, rfl, -⟩ | ⟨_, rfl, -⟩ | ⟨_, rfl⟩ | rfl :=
    kind_of_readScalar h <;> trivial

section Reading

variable {leaf : Item → Prop} {name : String → Prop} {source : List Char}

theorem Readable.readNames (hr : Readable leaf name source) (bound : Nat) :
    Gives (fun names => ∀ read ∈ names, name read) source (Toml.readNames bound) := by
  intro cs after names hs h
  induction bound generalizing cs names with
  | zero => cases h
  | succ bound ih =>
    rw [Toml.readNames] at h
    split at h
    · cases h
    · next read rest hread =>
      have hname := hr.name ((skipSpace_suffix cs).trans hs) hread
      have hrest : skipSpace rest <:+ cs :=
        (skipSpace_suffix rest).trans ((takesFront_readName hread).trans (skipSpace_suffix cs))
      split at h
      · next more hmore =>
        obtain ⟨_, hmap, rfl⟩ := exists_of_map_eq_some h
        rw [hmore] at hrest
        have hsuffix := (List.suffix_cons '.' more).trans hrest
        obtain ⟨hafter, hall⟩ := ih (hsuffix.trans hs) hmap
        exact ⟨hafter.trans hsuffix, List.forall_mem_cons.2 ⟨hname, hall⟩⟩
      · cases h
        exact ⟨hrest, List.forall_mem_singleton.2 hname⟩

theorem Readable.readKey (hr : Readable leaf name source) {cs after : List Char}
    {path : List String} {new : String} (hs : cs <:+ source)
    (h : Toml.readKey cs = some (path, new, after)) :
    after <:+ cs ∧ (∀ step ∈ path, name step) ∧ name new := by
  rw [Toml.readKey] at h
  split at h
  · cases h
  · next names rest hnames =>
    obtain ⟨last, hlast, he⟩ := Option.map_eq_some_iff.1 h
    cases he
    obtain ⟨hafter, hall⟩ := hr.readNames _ hs hnames
    exact ⟨hafter, fun step hm => hall step (List.dropLast_subset _ hm),
      hall _ (List.mem_of_getLast? hlast)⟩

theorem Readable.readScalar (hr : Readable leaf name source) :
    Gives (·.Every leaf name) source Toml.readScalar :=
  fun hs h => ⟨takesFront_readScalar h, .scalar (isScalar_of_readScalar h) (hr.scalar hs h)⟩

variable {item : List Char → Option (Item × List Char)}

theorem gives_readArray (hi : Gives (·.Every leaf name) source item) (bound : Nat) :
    Gives (fun items => ∀ item ∈ items, item.Every leaf name) source (readArray item bound) := by
  intro cs after items hs h
  induction bound generalizing cs items with
  | zero => cases h
  | succ bound ih =>
    rw [readArray] at h
    split at h
    · cases h
    · next rest hf =>
      cases h
      exact ⟨(List.suffix_cons _ _).trans (suffix_of_skipFiller hf),
        fun _ hm => absurd hm List.not_mem_nil⟩
    · next cs' hf =>
      split at h
      · cases h
      · next first rest hread =>
        obtain ⟨hrest, hfirst⟩ := hi ((suffix_of_skipFiller hf).trans hs) hread
        have hmore : ∀ {c more}, skipFiller false rest = some (c :: more) → more <:+ cs := fun hm =>
          (List.suffix_cons _ _).trans
            ((suffix_of_skipFiller hm).trans (hrest.trans (suffix_of_skipFiller hf)))
        split at h
        · next more hm =>
          obtain ⟨_, hmap, rfl⟩ := exists_of_map_eq_some h
          obtain ⟨hafter, hall⟩ := ih ((hmore hm).trans hs) hmap
          exact ⟨hafter.trans (hmore hm), List.forall_mem_cons.2 ⟨hfirst, hall⟩⟩
        · next more hm =>
          cases h
          exact ⟨hmore hm, List.forall_mem_singleton.2 hfirst⟩
        · cases h

/-- A key with its value, of such names and scalars. -/
def PairEvery (leaf : Item → Prop) (name : String → Prop) (pair : List String × String × Item) :
    Prop :=
  (∀ step ∈ pair.1, name step) ∧ name pair.2.1 ∧ pair.2.2.Every leaf name

theorem gives_readPair (hr : Readable leaf name source)
    (hi : Gives (·.Every leaf name) source item) :
    Gives (PairEvery leaf name) source (readPair item) := by
  intro cs after pair hs h
  rw [readPair] at h
  simp only [Option.bind_eq_bind, Option.bind_eq_some_iff, Prod.exists] at h
  obtain ⟨path, new, cs₁, hkey, cs₂, hmark, value, cs₃, hvalue, he⟩ := h
  cases he
  obtain ⟨hrest, hpath, hnew⟩ := hr.readKey hs hkey
  have hspace : skipSpace cs₂ <:+ cs :=
    (skipSpace_suffix cs₂).trans ((suffix_of_after? hmark).trans hrest)
  obtain ⟨hafter, hitem⟩ := hi (hspace.trans hs) hvalue
  exact ⟨hafter.trans hspace, hpath, hnew, hitem⟩

theorem gives_readPairs (hr : Readable leaf name source)
    (hi : Gives (·.Every leaf name) source item) (bound : Nat) :
    Gives (fun pairs => ∀ pair ∈ pairs, PairEvery leaf name pair)
      source (readPairs item bound) := by
  intro cs after pairs hs h
  induction bound generalizing cs pairs with
  | zero => cases h
  | succ bound ih =>
    rw [readPairs] at h
    split at h
    · cases h
    · next first rest hread =>
      obtain ⟨hrest, hfirst⟩ := gives_readPair hr hi hs hread
      have hmore : ∀ {c more}, skipSpace rest = c :: more → more <:+ cs := fun hm =>
        (List.suffix_cons _ _).trans ((hm ▸ skipSpace_suffix rest).trans hrest)
      split at h
      · next more hm =>
        obtain ⟨_, hmap, rfl⟩ := exists_of_map_eq_some h
        obtain ⟨hafter, hall⟩ := ih ((hmore hm).trans hs) hmap
        exact ⟨hafter.trans (hmore hm), List.forall_mem_cons.2 ⟨hfirst, hall⟩⟩
      · next more hm =>
        cases h
        exact ⟨hmore hm, List.forall_mem_singleton.2 hfirst⟩
      · cases h

/-- Adding pairs to a draft, each under its own dotted key. -/
theorem every_of_assigns {pairs : List (List String × String × Item)} {entries done : DraftEntries}
    (h : pairs.foldlM (fun entries (path, new, item) => assignDotted new item path entries)
      entries = some done)
    (hpairs : ∀ pair ∈ pairs, PairEvery leaf name pair) (hall : entries.Every leaf name) :
    done.Every leaf name := by
  induction pairs generalizing entries with
  | nil =>
    cases h
    exact hall
  | cons pair rest ih =>
    obtain ⟨⟨hpath, hnew, hitem⟩, hrest⟩ := List.forall_mem_cons.1 hpairs
    rw [List.foldlM_cons] at h
    obtain ⟨next, hnext, h⟩ := Option.bind_eq_some_iff.1 h
    exact ih h hrest (keeps_assignDotted hnew hitem hpath hnext hall)

theorem every_of_tableOf? {pairs : List (List String × String × Item)} {table : Item}
    (h : tableOf? pairs = some table) (hpairs : ∀ pair ∈ pairs, PairEvery leaf name pair) :
    table.Every leaf name := by
  rw [tableOf?] at h
  obtain ⟨entries, he, h⟩ := Option.bind_eq_some_iff.1 h
  cases h
  exact every_finishEntries_iff.2 (every_of_assigns he hpairs every_nil)

theorem gives_readInlineTable (hr : Readable leaf name source)
    (hi : Gives (·.Every leaf name) source item) :
    Gives (·.Every leaf name) source (readInlineTable item) := by
  intro cs after table hs h
  rw [readInlineTable] at h
  split at h
  · next rest hm =>
    cases h
    exact ⟨(List.suffix_cons _ _).trans (hm ▸ skipSpace_suffix cs),
      .table (fun _ hm => absurd hm List.not_mem_nil)
      fun _ hm => absurd hm List.not_mem_nil⟩
  · split at h
    · cases h
    · next pairs rest hread =>
      obtain ⟨_, hmap, he⟩ := Option.map_eq_some_iff.1 h
      cases he
      obtain ⟨hafter, hpairs⟩ := gives_readPairs hr hi _ ((skipSpace_suffix cs).trans hs) hread
      exact ⟨hafter.trans (skipSpace_suffix cs), every_of_tableOf? hmap hpairs⟩

/-- **Every value in a text** consists of the names and scalars that can be read in it. -/
theorem Readable.readItem (hr : Readable leaf name source) (depth : Nat) :
    Gives (·.Every leaf name) source (Toml.readItem depth) := by
  induction depth with
  | zero =>
    intro cs after item hs h
    rw [Toml.readItem.eq_def] at h
    split at h
    · cases h
    · cases h
    · next he => cases he
    · next he => cases he
    · exact hr.readScalar hs h
  | succ depth ih =>
    intro cs after item hs h
    rw [Toml.readItem.eq_def] at h
    split at h
    · cases h
    · cases h
    · next he =>
      cases he
      obtain ⟨_, hmap, rfl⟩ := exists_of_map_eq_some h
      obtain ⟨hafter, hall⟩ := gives_readArray ih _ ((List.suffix_cons _ _).trans hs) hmap
      exact ⟨hafter.trans (List.suffix_cons _ _), .list hall⟩
    · next he =>
      cases he
      obtain ⟨hafter, hall⟩ := gives_readInlineTable hr ih ((List.suffix_cons _ _).trans hs) h
      exact ⟨hafter.trans (List.suffix_cons _ _), hall⟩
    · exact hr.readScalar hs h

theorem Readable.readHeader (hr : Readable leaf name source) :
    Gives (Statement.Every leaf name) source Toml.readHeader := by
  intro cs after statement hs h
  rw [Toml.readHeader.eq_def] at h
  split at h
  · next rest =>
    simp only [Option.bind_eq_bind, Option.bind_eq_some_iff, Prod.exists] at h
    obtain ⟨path, new, cs₁, hkey, cs₂, hclose, cs₃, hclose', cs₄, hline, he⟩ := h
    cases he
    obtain ⟨hrest, hsteps⟩ := hr.readKey ((List.suffix_cons _ _).trans hs) hkey
    exact ⟨(suffix_of_afterLine? hline).trans
      ((suffix_of_after? hclose').trans ((suffix_of_after? hclose).trans
      (hrest.trans (List.suffix_cons _ _)))), hsteps⟩
  · simp only [Option.bind_eq_bind, Option.bind_eq_some_iff, Prod.exists] at h
    obtain ⟨path, new, cs₁, hkey, cs₂, hclose, cs₃, hline, he⟩ := h
    cases he
    obtain ⟨hrest, hsteps⟩ := hr.readKey hs hkey
    exact ⟨(suffix_of_afterLine? hline).trans ((suffix_of_after? hclose).trans hrest), hsteps⟩

theorem Readable.readAssignment (hr : Readable leaf name source) :
    Gives (Statement.Every leaf name) source Toml.readAssignment := by
  intro cs after statement hs h
  rw [Toml.readAssignment] at h
  simp only [Option.bind_eq_bind, Option.bind_eq_some_iff, Prod.exists] at h
  obtain ⟨path, new, item, cs₁, hpair, cs₂, hline, he⟩ := h
  cases he
  obtain ⟨hafter, hstatement⟩ := gives_readPair hr (hr.readItem _) hs hpair
  exact ⟨(suffix_of_afterLine? hline).trans hafter, hstatement⟩

theorem Readable.readStatements (hr : Readable leaf name source) {bound : Nat} {cs : List Char}
    {statements : List Statement} (hs : cs <:+ source)
    (h : Toml.readStatements bound cs = some statements) :
    ∀ statement ∈ statements, statement.Every leaf name := by
  induction bound generalizing cs statements with
  | zero =>
    rw [Toml.readStatements] at h
    split at h
    · cases h
      exact fun _ hm => absurd hm List.not_mem_nil
    · cases h
  | succ bound ih =>
    have hspace := (skipSpace_suffix cs).trans hs
    rw [Toml.readStatements] at h
    split at h
    · cases h
      exact fun _ hm => absurd hm List.not_mem_nil
    · next c rest hc =>
      rw [hc] at hspace
      split at h
      · split at h
        · next after hline => exact ih ((suffix_of_afterLine? hline).trans hspace) h
        · cases h
      · split at h
        · next statement after hread =>
          obtain ⟨_, hmap, rfl⟩ := Option.map_eq_some_iff.1 h
          have hsplit : after <:+ c :: rest ∧ statement.Every leaf name := by
            split at hread
            · obtain ⟨hafter, hstatement⟩ :=
                hr.readHeader ((List.suffix_cons _ _).trans hspace) hread
              exact ⟨hafter.trans (List.suffix_cons _ _), hstatement⟩
            · exact hr.readAssignment hspace hread
          exact List.forall_mem_cons.2 ⟨hsplit.2, ih (hsplit.1.trans hspace) hmap⟩
        · cases h

end Reading

/-! ## Marked tables -/

namespace Item

theorem forall₂_of_resolveItems? {items done : List Item} (h : resolveItems? items = some done) :
    List.Forall₂ (fun item new => item.resolve? = some new) items done := by
  induction items generalizing done with
  | nil =>
    cases h
    exact .nil
  | cons item rest ih =>
    rw [resolveItems?] at h
    split at h
    · cases h
    · next new hnew =>
      obtain ⟨more, hmore, rfl⟩ := Option.map_eq_some_iff.1 h
      exact .cons hnew (ih hmore)

theorem forall₂_of_resolveEntries? {entries done : List (String × Item)}
    (h : resolveEntries? entries = some done) :
    List.Forall₂ (fun entry new => entry.1 = new.1 ∧ entry.2.resolve? = some new.2)
      entries done := by
  induction entries generalizing done with
  | nil =>
    cases h
    exact .nil
  | cons entry rest ih =>
    rw [resolveEntries?] at h
    split at h
    · cases h
    · next new hnew =>
      obtain ⟨more, hmore, rfl⟩ := Option.map_eq_some_iff.1 h
      exact .cons ⟨rfl, hnew⟩ (ih hmore)

theorem mark?_of_forall₂ {entries done : List (String × Item)}
    (h : List.Forall₂ (fun entry new =>
      entry.1 = new.1 ∧ entry.2.resolve? = some new.2) entries done)
    (hm : mark? entries = none) : mark? done = none := by
  cases h with
  | nil => rfl
  | cons hfirst _ =>
    rw [mark?] at hm ⊢
    split at hm
    · cases hm
    · next hne => rw [if_neg (hfirst.1 ▸ hne)]

theorem mem_of_mark? {entries : List (String × Item)} {first : Item}
    (h : mark? entries = some first) :
    (Value.datetimeField, first) ∈ entries := by
  cases entries with
  | nil => cases h
  | cons entry rest =>
    rw [mark?] at h
    split at h
    · next hname =>
      cases h
      rw [← hname]
      exact List.mem_cons_self
    · cases h

theorem ofMark?_eq_some {first new : Item} (h : ofMark? first = some new) :
    ∃ stamp d, first = .text stamp ∧ Datetime.ofText stamp.toList = .ok d ∧ new = .datetime d := by
  rw [ofMark?.eq_def] at h
  split at h
  · next stamp =>
    obtain ⟨d, hd, rfl⟩ := Option.map_eq_some_iff.1 h
    exact ⟨stamp, d, rfl, Except.toOption_eq_some_iff.1 hd, rfl⟩
  · cases h

/-- **Looking for marked tables adds nothing but dates, and leaves no marked table.** -/
theorem every_of_resolve? {leaf : Item → Prop} {name : String → Prop}
    (hdate : ∀ {stamp d}, leaf (.text stamp) → Datetime.ofText stamp.toList = .ok d →
      leaf (.datetime d))
    {item new : Item} (h : item.resolve? = some new) (hall : item.Every leaf name) :
    new.Every leaf name ∧ new.resolve? = some new := by
  induction item generalizing new with
  | text | whole | double | notFinite | bool | datetime =>
    cases h
    exact ⟨hall, rfl⟩
  | list items ih =>
    rw [Item.resolve?] at h
    obtain ⟨done, hd, rfl⟩ := Option.map_eq_some_iff.1 h
    have hitems := every_list_iff.1 hall
    have hboth : ∀ new ∈ done, new.Every leaf name ∧ new.resolve? = some new := by
      intro new hm
      obtain ⟨item, hi, hnew⟩ := exists_of_forall₂ (forall₂_of_resolveItems? hd) hm
      exact ih item hi hnew (hitems item hi)
    refine ⟨.list fun new hm => (hboth new hm).1, ?_⟩
    rw [Item.resolve?, resolveItems?_of_forall fun new hm => (hboth new hm).2]
    rfl
  | table entries ih =>
    have hentries := every_table_iff.1 hall
    rw [Item.resolve?] at h
    split at h
    · next first hmark =>
      obtain ⟨stamp, d, rfl, hd, rfl⟩ := ofMark?_eq_some h
      have hstamp :=
        (every_scalar_iff (show (Item.text stamp).IsScalar from trivial)).1
          (hentries _ (mem_of_mark? hmark)).2
      exact ⟨.scalar trivial (hdate hstamp hd), rfl⟩
    · next hmark =>
      obtain ⟨done, hd, rfl⟩ := Option.map_eq_some_iff.1 h
      have hresolved := forall₂_of_resolveEntries? hd
      have hboth :
          ∀ new ∈ done, name new.1 ∧ new.2.Every leaf name ∧ new.2.resolve? = some new.2 := by
        intro new hm
        obtain ⟨entry, he, hname, hnew⟩ := exists_of_forall₂ hresolved hm
        obtain ⟨hevery, hsame⟩ := ih entry he hnew (hentries entry he).2
        exact ⟨hname ▸ (hentries entry he).1, hevery, hsame⟩
      refine ⟨.table (fun new hm => (hboth new hm).1) fun new hm => (hboth new hm).2.1, ?_⟩
      rw [Item.resolve?, mark?_of_forall₂ hresolved hmark]
      simp only
      rw [resolveEntries?_of_forall fun new hm => (hboth new hm).2.2]
      rfl

end Item

/-! ## All that a text denotes -/

theorem withoutMark_suffix (cs : List Char) : withoutMark cs <:+ cs := by
  cases cs with
  | nil => exact List.suffix_refl _
  | cons c rest =>
    rw [withoutMark]
    split
    · exact List.suffix_cons _ _
    · exact List.suffix_refl _

/-- **What holds of all names and scalars that can be read in a text holds of all that the text
denotes**, and no table in it would be taken for a date. -/
theorem every_of_readItems? {leaf : Item → Prop} {name : String → Prop} {text : String}
    (hr : Readable leaf name text.toList)
    (hdate : ∀ {stamp d}, leaf (.text stamp) → Datetime.ofText stamp.toList = .ok d →
      leaf (.datetime d))
    {items : List (String × Item)} (h : readItems? text = some items) :
    (Item.table items).Every leaf name ∧ ∀ entry ∈ items, entry.2.resolve? = some entry.2 := by
  rw [readItems?] at h
  obtain ⟨statements, hstatements, h⟩ := Option.bind_eq_some_iff.1 h
  obtain ⟨progress, hprogress, h⟩ := Option.bind_eq_some_iff.1 h
  have hfirst : Progress.Every leaf name ⟨[], []⟩ :=
    ⟨every_nil, fun _ hm => absurd hm List.not_mem_nil⟩
  have hcarried :=
    every_of_steps hprogress (hr.readStatements (withoutMark_suffix _) hstatements) hfirst
  have hdraft := Item.every_table_iff.1 (every_finishEntries_iff.2 hcarried.1)
  have hboth : ∀ new ∈ items, name new.1 ∧ new.2.Every leaf name ∧ new.2.resolve? = some new.2 := by
    intro new hm
    obtain ⟨entry, he, hname, hnew⟩ := Item.exists_of_forall₂ (Item.forall₂_of_resolveEntries? h) hm
    obtain ⟨hevery, hsame⟩ := Item.every_of_resolve? hdate hnew (hdraft entry he).2
    exact ⟨hname ▸ (hdraft entry he).1, hevery, hsame⟩
  exact ⟨.table (fun new hm => (hboth new hm).1) fun new hm => (hboth new hm).2.1,
    fun new hm => (hboth new hm).2.2⟩

/-- A whole number that is a signed one, a date in range, or another scalar. -/
def Item.InRange : Item → Prop
  | .whole n => -0x8000000000000000 ≤ n ∧ n < 0x8000000000000000
  | .datetime d => d.Proper
  | _ => True

/-- **Every whole number of a text is a signed one, and every date is in range.** -/
theorem inRange_of_readItems? {text : String} {items : List (String × Item)}
    (h : readItems? text = some items) :
    (Item.table items).Every Item.InRange (fun _ => True) ∧
      ∀ entry ∈ items, entry.2.resolve? = some entry.2 := by
  refine every_of_readItems? ⟨fun _ hread => ?_, fun _ _ => trivial⟩
    (fun _ hd => proper_of_ofText hd) h
  obtain ⟨_, rfl, -⟩ | ⟨_, rfl⟩ | ⟨_, rfl, hd⟩ | ⟨_, rfl, hn⟩ | ⟨_, rfl⟩ | rfl :=
    kind_of_readScalar hread
  · trivial
  · trivial
  · exact hd
  · exact hn
  · trivial
  · trivial

end Sweep.Toml
