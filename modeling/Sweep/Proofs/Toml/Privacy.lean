import Sweep.Proofs.Json.Privacy
import Sweep.Proofs.Toml.Discretion

/-!
# The private name of dates in written TOML

Names and strings are closed by what the private name lacks: an unquoted name has no dollar sign,
and every other one and every string stands between quotes. Numbers, dates and the marks of the
format have no dollar sign either. So what is written for a discreet item, in line (`silent_inline`)
and in sections (`silent_itemSections`), brings no private name about.
-/

set_option autoImplicit false

namespace Sweep

namespace Toml

open Item

/-! ## Names and scalars -/

theorem copies_escapeFrom (breaks : Bool) (allowed run : Nat) (cs : List Char) :
    Copies cs (escapeFrom breaks allowed run cs) := by
  induction cs generalizing run with
  | nil => exact .nil
  | cons c rest ih =>
    have hescape : ∀ letters, '$' ∉ letters →
        ∀ run, Copies (c :: rest) ('\\' :: letters ++ escapeFrom breaks allowed run rest) :=
      fun letters hl run => .replace [c] (by decide) hl (ih run)
    by_cases hquote : c = '"'
    · rw [escapeFrom, if_pos hquote]
      split
      · exact (ih _).keep c
      · exact hescape ['"'] (by decide) 0
    · rw [escapeFrom_cons hquote, escapedChar]
      repeat' split
      · exact hescape ['b'] (by decide) 0
      · exact hescape ['t'] (by decide) 0
      · exact hescape ['f'] (by decide) 0
      · exact hescape ['r'] (by decide) 0
      · exact hescape ['\\'] (by decide) 0
      · exact (ih 0).keep c
      · exact hescape ['n'] (by decide) 0
      · refine hescape ('u' :: (Text.hex 4 c.toNat).map Char.toUpper) (fun hm => ?_) 0
        obtain ⟨digit, hd, hc⟩ := List.mem_map.1 ((List.mem_cons.1 hm).resolve_left (by decide))
        obtain ⟨value, hv, rfl⟩ := Text.exists_of_mem_hex hd
        have hother : ∀ value < 16, (Nat.digitChar value).toUpper ≠ '$' := by decide
        exact hother value hv hc
      · exact (ih 0).keep c

theorem silent_quoted {cs : List Char} (h : ¬ Leaks cs) : Silent (quoted cs) := by
  have hescaped : ∀ breaks allowed, ¬ Leaks (escapeFrom breaks allowed 0 cs) :=
    fun breaks allowed hl => h ((copies_escapeFrom breaks allowed 0 cs).leaks hl)
  have hbreak : Silent (leadingBreak cs) := by
    rw [leadingBreak]
    split <;> exact silent_of_notMem (by decide)
  rw [quoted]
  split
  · exact (silent_append_cons (hescaped false 0) (by decide) silent_nil).cons (by decide)
  · exact (silent_append_cons h (by decide) silent_nil).cons (by decide)
  · rw [List.append_assoc]
    exact ((silent_of_notMem (by decide)).append hbreak).append
      (silent_append_cons (hescaped true 2) (by decide) (silent_of_notMem (by decide)))
  · rw [List.append_assoc]
    exact ((silent_of_notMem (by decide)).append hbreak).append
      (silent_append_cons h (by decide) (silent_of_notMem (by decide)))

theorem silent_nameText {name : String} (h : ¬ Leaks name.toList) : Silent (nameText name) := by
  have hescaped : ¬ Leaks (escapeLine name.toList) :=
    fun hl => h ((copies_escapeFrom false 0 0 name.toList).leaks hl)
  rw [nameText]
  split
  · next hbare =>
    rw [Bool.and_eq_true, List.all_eq_true] at hbare
    exact silent_of_notMem fun hm => absurd (hbare.2 _ hm) (by decide)
  · split
    · exact (silent_append_cons hescaped (by decide) silent_nil).cons (by decide)
    · split
      · exact (silent_append_cons h (by decide) silent_nil).cons (by decide)
      · exact (silent_append_cons hescaped (by decide) silent_nil).cons (by decide)

theorem silent_pathText {path : List String} (h : ∀ name ∈ path, ¬ Leaks name.toList) :
    Silent (pathText path) := by
  induction path with
  | nil => exact silent_nil
  | cons first rest ih =>
    obtain ⟨hfirst, hrest⟩ := List.forall_mem_cons.1 h
    cases rest with
    | nil => exact silent_nameText hfirst
    | cons second more => exact (silent_nameText hfirst).append ((ih hrest).cons (by decide))

theorem isNumeral_doubleText {x : Double} {c : Char} (h : c ∈ doubleText x) : IsNumeral c :=
  isNumeral_signed (fun _ hc => Scientific.isNumeral_plain (x.isNumeral_shortest .upward) hc) h

theorem silent_scalarText {item : Item} (h : item.Discreet) : Silent (scalarText item) := by
  cases item with
  | text s =>
    exact silent_quoted ((every_scalar_iff (show (Item.text s).IsScalar from trivial)).1 h s rfl)
  | whole n =>
    have hsign : Silent (if n < 0 then ['-'] else []) := by
      split <;> exact silent_of_notMem (by decide)
    exact hsign.append (silent_of_isNumeral fun c hc => isNumeral_digits hc)
  | double x => exact silent_of_isNumeral fun c hc => isNumeral_doubleText hc
  | notFinite => exact silent_of_notMem (by decide)
  | bool b => cases b <;> exact silent_of_notMem (by decide)
  | datetime d => exact silent_date d
  | list | table => exact silent_nil

/-! ## Values in line -/

theorem silent_inlineItems {items : List Item} (h : ∀ item ∈ items, Silent (inline item)) :
    Silent (inlineItems items) := by
  induction items with
  | nil => exact silent_nil
  | cons first rest ih =>
    obtain ⟨hfirst, hrest⟩ := List.forall_mem_cons.1 h
    cases rest with
    | nil => exact hfirst
    | cons second more => exact hfirst.append (((ih hrest).cons (by decide)).cons (by decide))

theorem silent_assign {name : String} {cs : List Char} (hn : ¬ Leaks name.toList) (hc : Silent cs) :
    Silent (nameText name ++ ' ' :: '=' :: ' ' :: cs) :=
  (silent_nameText hn).append (((hc.cons (by decide)).cons (by decide)).cons (by decide))

theorem silent_inlineEntries {entries : List (String × Item)}
    (h : ∀ entry ∈ entries, ¬ Leaks entry.1.toList ∧ Silent (inline entry.2)) :
    Silent (inlineEntries entries) := by
  induction entries with
  | nil => exact silent_nil
  | cons first rest ih =>
    obtain ⟨⟨hname, hfirst⟩, hrest⟩ := List.forall_mem_cons.1 h
    cases rest with
    | nil => exact silent_assign hname hfirst
    | cons second more =>
      exact (silent_assign hname hfirst).append (((ih hrest).cons (by decide)).cons (by decide))

theorem silent_inline {item : Item} (h : item.Discreet) : Silent (inline item) := by
  induction item with
  | text | whole | double | notFinite | bool | datetime => exact silent_scalarText h
  | list items ih =>
    have hitems := silent_inlineItems fun item hm => ih item hm (every_list_iff.1 h item hm)
    exact (hitems.append (silent_of_notMem (by decide))).cons (by decide)
  | table entries ih =>
    have hentries := silent_inlineEntries fun entry hm =>
      ⟨(every_table_iff.1 h entry hm).1, ih entry hm (every_table_iff.1 h entry hm).2⟩
    cases entries with
    | nil =>
      show Silent ['\x7b', '\x7d']
      exact silent_of_notMem (by decide)
    | cons first rest =>
      exact ((hentries.append (silent_of_notMem (by decide))).cons (by decide)).cons (by decide)

/-! ## Sections -/

theorem silent_plainLines {entries : List (String × Item)} (h : (Item.table entries).Discreet) :
    Silent (plainLines entries) := by
  have hall := every_table_iff.1 h
  clear h
  induction entries with
  | nil => exact silent_nil
  | cons first rest ih =>
    obtain ⟨⟨hname, hfirst⟩, hrest⟩ := List.forall_mem_cons.1 hall
    rw [plainLines]
    split
    · exact ih hrest
    · have hline :=
        silent_assign hname
          ((silent_inline hfirst).append ((ih hrest).cons (c := '\n') (by decide)))
      rwa [← List.cons_append, ← List.cons_append, ← List.cons_append, ← List.append_assoc] at hline

section Headers

variable {path : List String} (hp : ∀ name ∈ path, ¬ Leaks name.toList)
include hp

theorem silent_tableHeader : Silent (tableHeader path) :=
  (((silent_pathText hp).append (silent_of_notMem (by decide))).cons (by decide)).cons (by decide)

theorem silent_elementHeader : Silent (elementHeader path) :=
  ((((silent_pathText hp).append (silent_of_notMem (by decide))).cons (by decide)).cons
    (by decide)).cons (by decide)

theorem discreet_path {name : String} (hn : ¬ Leaks name.toList) :
    ∀ step ∈ path ++ [name], ¬ Leaks step.toList := by
  intro step hm
  rcases List.mem_append.1 hm with hm | hm
  · exact hp step hm
  · rw [List.mem_singleton.1 hm]
    exact hn

end Headers

theorem silent_sections {entries : List (String × Item)} {path : List String}
    (hp : ∀ name ∈ path, ¬ Leaks name.toList)

    (h : ∀ entry ∈ entries, ¬ Leaks entry.1.toList ∧
      ∀ {path}, (∀ name ∈ path, ¬ Leaks name.toList) → Silent (itemSections path entry.2)) :
    Silent (sections path entries) := by
  induction entries with
  | nil => exact silent_nil
  | cons first rest ih =>
    obtain ⟨⟨hname, hfirst⟩, hrest⟩ := List.forall_mem_cons.1 h
    exact (hfirst (discreet_path hp hname)).append (ih hrest)

theorem silent_elementSections {items : List Item} {path : List String}
    (hp : ∀ name ∈ path, ¬ Leaks name.toList)

    (h : ∀ item ∈ items, item.Discreet ∧
      ∀ entries, item = .table entries → Silent (sections path entries)) :
    Silent (elementSections path items) := by
  induction items with
  | nil => exact silent_nil
  | cons first rest ih =>
    obtain ⟨⟨hfirst, htable⟩, hrest⟩ := List.forall_mem_cons.1 h
    cases first with
    | table entries =>
      exact (((silent_elementHeader hp).append (silent_plainLines hfirst)).append
        (htable entries rfl)).append (ih hrest)
    | text | whole | double | notFinite | bool | datetime | list => exact ih hrest

/-- **The sections of a discreet item** bring no private name about, and neither do those of the
entries of a table. -/
theorem silent_itemSections {item : Item} (h : item.Discreet) {path : List String}
    (hp : ∀ name ∈ path, ¬ Leaks name.toList) :
    Silent (itemSections path item) ∧
      ∀ entries, item = .table entries → Silent (sections path entries) := by
  induction item generalizing path with
  | text | whole | double | notFinite | bool | datetime =>
    exact ⟨silent_nil, fun _ he => by cases he⟩
  | list items ih =>
    refine ⟨?_, fun _ he => by cases he⟩
    have hitems := every_list_iff.1 h
    rw [itemSections]
    split
    · exact silent_elementSections hp fun item hm =>
        ⟨hitems item hm, (ih item hm (hitems item hm) hp).2⟩
    · exact silent_nil
  | table entries ih =>
    have hentries := every_table_iff.1 h
    have hsections : Silent (sections path entries) := silent_sections hp fun entry hm =>
      ⟨(hentries entry hm).1, fun hp => (ih entry hm (hentries entry hm).2 hp).1⟩
    have hheader : Silent (if needsHeader entries then tableHeader path else []) := by
      split
      · exact silent_tableHeader hp
      · exact silent_nil
    refine ⟨(hheader.append (silent_plainLines h)).append hsections, fun _ he => ?_⟩
    cases he
    exact hsections

end Toml

/-- **What is written as TOML for a discreet document does not contain the private name.** -/
theorem Document.Discreet.not_leaks_toml {doc : Document} (h : doc.Discreet) {text : String}
    (he : FileFormat.toml.encode doc = .ok text) : ¬ Leaks text.toList := by
  obtain ⟨items, hitems, rfl⟩ := Except.map_eq_ok_iff.1 he
  have hroot : (Toml.Item.table items).Discreet := by
    have hboth : ∀ item ∈ items, ¬ Leaks item.1.toList ∧ item.2.Discreet := by
      intro item hm
      obtain ⟨entry, hv, hname, hof⟩ :=
        Toml.Item.exists_of_forall₂ (Toml.Item.forall₂_of_ofEntries hitems) hm
      exact ⟨hname ▸ h.names entry hv, Toml.Item.discreet_of_ofValue (h.values entry hv) hof⟩
    exact .table (fun item hm => (hboth item hm).1) fun item hm => (hboth item hm).2
  have hpath : ∀ name ∈ ([] : List String), ¬ Leaks name.toList :=
    fun _ hm => absurd hm List.not_mem_nil
  have hbody :=
    (Toml.silent_plainLines hroot).append ((Toml.silent_itemSections hroot hpath).2 items rfl)
  rw [String.toList_ofList, Toml.documentText]
  split
  · next rest hrest =>
    rw [hrest] at hbody
    exact fun hl => hbody.not_leaks (hl.mono (List.suffix_cons '\n' rest).isInfix)
  · exact hbody.not_leaks

end Sweep
