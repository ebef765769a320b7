import Sweep.Proofs.Document.Privacy
import Sweep.Proofs.Toml.Contents

/-!
# What a text says of the private name of dates

A text that does not contain the private name can still spell it, with an escape for one of its
characters. Without escapes every string and every name is a copy from the text, with breaks of
lines made uniform, so it does not contain the name either (`copies_of_readString`,
`copies_of_readName`). What the text denotes is then discreet, and discretion passes from items to
values and back.
-/

set_option autoImplicit false

namespace Sweep.Toml

open Item

/-! ## Reading -/

/-- The quotes that belong to a text after all are none of the name. -/
theorem copies_closingQuotes {q : Char} (hq : q ∉ Value.datetimeField.toList)
    (source cs : List Char) :
    Copies source (closingQuotes q cs).1 := by
  have hnil : ∀ {source : List Char}, Copies source [q] :=
    Copies.replace [] hq List.not_mem_nil .nil
  have hmore : Copies source [q, q] := Copies.replace [] hq List.not_mem_nil hnil
  rw [closingQuotes.eq_def]
  repeat' split
  · exact hmore
  · exact hnil
  · exact .nil
  · exact hnil
  · exact .nil
  · exact .nil

section Strings

variable {cs text after : List Char}

theorem copies_of_readBasic (hs : '\\' ∉ cs) (h : readBasic cs = some (text, after)) :
    Copies cs text := by
  fun_induction readBasic cs generalizing text with
  | case1 => cases h
  | case2 =>
    cases h
    exact .nil
  | case3 => cases h
  | case4 => exact absurd List.mem_cons_self hs
  | case5 c rest _ _ _ ih =>
    obtain ⟨_, hread, rfl⟩ := exists_of_map_eq_some h
    exact (ih (fun hm => hs (List.mem_cons_of_mem _ hm)) hread).keep c
  | case6 => cases h

theorem copies_of_readLiteral (h : readLiteral cs = some (text, after)) : Copies cs text := by
  fun_induction readLiteral cs generalizing text with
  | case1 => cases h
  | case2 =>
    cases h
    exact .nil
  | case3 c rest _ _ ih =>
    obtain ⟨_, hread, rfl⟩ := exists_of_map_eq_some h
    exact (ih hread).keep c
  | case4 => cases h

theorem copies_of_readBasicLines (hs : '\\' ∉ cs) (h : readBasicLines cs = some (text, after)) :
    Copies cs text := by
  fun_induction readBasicLines cs generalizing text with
  | case1 => cases h
  | case2 rest =>
    have hquotes : (closingQuotes '"' rest).1 = text := congrArg Prod.fst (Option.some.inj h)
    exact hquotes ▸ copies_closingQuotes (by decide) _ rest
  | case3 => exact absurd List.mem_cons_self hs
  | case4 => cases h
  | case5 => exact absurd List.mem_cons_self hs
  | case6 rest ih =>
    obtain ⟨_, hread, rfl⟩ := exists_of_map_eq_some h
    have hrest : '\\' ∉ rest := fun hm => hs (List.mem_cons_of_mem _ (List.mem_cons_of_mem _ hm))
    exact .replace ['\r', '\n'] (by decide) List.not_mem_nil (ih hrest hread)
  | case7 c rest _ _ _ _ ih =>
    obtain ⟨_, hread, rfl⟩ := exists_of_map_eq_some h
    exact (ih (fun hm => hs (List.mem_cons_of_mem _ hm)) hread).keep c
  | case8 => cases h

theorem copies_of_readLiteralLines (h : readLiteralLines cs = some (text, after)) :
    Copies cs text := by
  fun_induction readLiteralLines cs generalizing text with
  | case1 => cases h
  | case2 rest =>
    have hquotes : (closingQuotes '\'' rest).1 = text := congrArg Prod.fst (Option.some.inj h)
    exact hquotes ▸ copies_closingQuotes (by decide) _ rest
  | case3 rest ih =>
    obtain ⟨_, hread, rfl⟩ := exists_of_map_eq_some h
    exact .replace ['\r', '\n'] (by decide) List.not_mem_nil (ih hread)
  | case4 c rest _ _ _ ih =>
    obtain ⟨_, hread, rfl⟩ := exists_of_map_eq_some h
    exact (ih hread).keep c
  | case5 => cases h

/-- A string without escapes is a copy from an end of the text that it is read from. -/
theorem copies_of_readString {s : String} (hs : '\\' ∉ cs) (h : readString cs = some (s, after)) :
    ∃ source, source <:+ cs ∧ Copies source s.toList := by
  obtain ⟨source, text, hsource, rfl, hread⟩ := source_of_readString h
  have hescape : '\\' ∉ source := fun hm => hs (hsource.subset hm)
  refine ⟨source, hsource, ?_⟩
  rw [String.toList_ofList]
  rcases hread with hread | hread | hread | hread
  · exact copies_of_readBasicLines hescape hread
  · exact copies_of_readBasic hescape hread
  · exact copies_of_readLiteralLines hread
  · exact copies_of_readLiteral hread

/-- So is a name. -/
theorem copies_of_readName {name : String} (hs : '\\' ∉ cs) (h : readName cs = some (name, after)) :
    ∃ source, source <:+ cs ∧ Copies source name.toList := by
  obtain ⟨source, text, hsource, rfl, hread⟩ | ⟨rfl, -⟩ := source_of_readName h
  · refine ⟨source, hsource, ?_⟩
    rw [String.toList_ofList]
    rcases hread with hread | hread
    · exact copies_of_readBasic (fun hm => hs (hsource.subset hm)) hread
    · exact copies_of_readLiteral hread
  · exact ⟨cs, List.suffix_refl cs, String.toList_ofList ▸ .of_front (List.takeWhile_prefix _)⟩

end Strings

/-! ## Discreet items -/

namespace Item

/-- The private name of dates occurs in no text and no name of an item. -/
def Discreet : Item → Prop :=
  Every (fun item => ∀ s, item = .text s → ¬ Leaks s.toList) (fun name => ¬ Leaks name.toList)

theorem silent_date (d : Datetime) : Silent d.text := by
  refine silent_of_notMem fun hm => ?_
  rcases isStampChar_of_mem hm with h | h
  · exact absurd h (by decide)
  · exact absurd h (by decide)

/-- A discreet item has a discreet value. -/
theorem Discreet.toValue {item : Item} (h : item.Discreet) : item.toValue.Discreet := by
  have hother : ∀ {v : Value}, (∀ items, v ≠ .list items) → (∀ entries, v ≠ .table entries) →
      (∀ s, v ≠ .text s) → v.Discreet :=
    fun hlist htable htext => Value.discreet_scalar hlist htable fun s he => absurd he (htext s)
  induction item with
  | text s =>
    refine Value.discreet_scalar (by simp [Item.toValue]) (by simp [Item.toValue]) fun t he => ?_
    cases he
    exact (every_scalar_iff (show (Item.text s).IsScalar from trivial)).1 h s rfl
  | whole n =>
    rw [Item.toValue]
    cases Whole.ofInt? n <;> exact hother (by simp) (by simp) (by simp)
  | double | notFinite | bool =>
    exact hother (by simp [Item.toValue]) (by simp [Item.toValue]) (by simp [Item.toValue])
  | datetime d =>
    refine Value.discreet_date ?_
    rw [String.toList_ofList]
    exact (silent_date d).not_leaks
  | list items ih =>
    rw [Item.toValue, toValues_eq_map]
    exact Value.discreet_list (List.forall_mem_map.2 fun item hm =>
      ih item hm (every_list_iff.1 h item hm))
  | table entries ih =>
    have hentries := every_table_iff.1 h
    rw [Item.toValue, toEntries_eq_map]
    exact Value.discreet_table (List.forall_mem_map.2 fun entry hm => (hentries entry hm).1)
      (List.forall_mem_map.2 fun entry hm => ih entry hm (hentries entry hm).2)

/-- A discreet value becomes a discreet item. -/
theorem discreet_of_ofValue {v : Value} (h : v.Discreet) {item : Item} (ho : ofValue v = .ok item) :
    item.Discreet := by
  have hother : ∀ {item : Item}, item.IsScalar → (∀ s, item ≠ .text s) → item.Discreet :=
    fun hs ht => .scalar hs fun s he => absurd he (ht s)
  induction v generalizing item with
  | null => cases ho
  | bool b =>
    cases ho
    exact hother trivial (by simp)
  | whole n =>
    cases ho
    rw [ofWhole]
    split <;> exact hother trivial (by simp)
  | double x =>
    cases ho
    exact hother trivial (by simp)
  | text s =>
    cases ho
    refine .scalar trivial fun t he => ?_
    cases he
    exact h.texts s .self
  | list values ih =>
    obtain ⟨items, rfl, hitems⟩ := items_of_ofValue_list ho
    refine .list fun item hm => ?_
    obtain ⟨value, hv, hof⟩ := exists_of_forall₂ hitems hm
    exact ih value hv (h.part (.item hv .self)) hof
  | table entries ih =>
    obtain ⟨_, d, -, -, rfl⟩ | ⟨hd, items, rfl, hitems⟩ := cases_of_ofValue_table ho
    · exact hother trivial (by simp)
    · have hboth : ∀ item ∈ items, ¬ Leaks item.1.toList ∧ item.2.Discreet := by
        intro item hm
        obtain ⟨entry, hv, hname, hof⟩ := exists_of_forall₂ (forall₂_of_ofEntries hitems) hm
        exact ⟨hname ▸ h.names entries .self hd entry hv,
          ih entry hv (h.part (.entry hv .self)) hof⟩
      exact .table (fun item hm => (hboth item hm).1) fun item hm => (hboth item hm).2

end Item

/-- **A text without the private name and without escapes denotes nothing that has the name.** -/
theorem discreet_of_readItems? {text : String} (hname : ¬ Leaks text.toList)
    (hs : '\\' ∉ text.toList) {items : List (String × Item)} (h : readItems? text = some items) :
    (Item.table items).Discreet := by
  have hcopied : ∀ {cs source copy : List Char}, cs <:+ text.toList → source <:+ cs →
      Copies source copy → ¬ Leaks copy :=
    fun hcs hsource hcopy hl => hname ((hcopy.leaks hl).mono (hsource.trans hcs).isInfix)
  refine (every_of_readItems? ⟨fun {cs after item} hcs hread s he =>
    ?_, fun {cs after name} hcs hread => ?_⟩
    (fun _ _ _ he => by cases he) h).1
  · obtain ⟨_, rfl, hstring⟩ | ⟨_, rfl⟩ | ⟨_, rfl, -⟩ | ⟨_, rfl, -⟩ | ⟨_, rfl⟩ | rfl :=
      kind_of_readScalar hread <;> cases he
    obtain ⟨source, hsource, hcopy⟩ := copies_of_readString (fun hm => hs (hcs.subset hm)) hstring
    exact hcopied hcs hsource hcopy
  · obtain ⟨source, hsource, hcopy⟩ := copies_of_readName (fun hm => hs (hcs.subset hm)) hread
    exact hcopied hcs hsource hcopy

end Sweep.Toml
