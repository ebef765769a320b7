import Sweep.Proofs.Document.Privacy
import Sweep.Proofs.Json.RoundTrip
import Sweep.Proofs.Number.Characters

/-!
# The private name of dates in JSON

Numbers and marks have no dollar sign, and a text stands between quotes, where escaping it brings no
name about. So a value without the private name is written without it, in one line and in many
(`silent_compact`, `silent_pretty`).

With its dates as texts a discreet value is without the name. As it stands it is not if a date lies
in it, because what is written for a value contains what is written for each of its parts.
-/

set_option autoImplicit false

namespace Sweep

theorem silent_of_isNumeral {cs : List Char} (h : ∀ c ∈ cs, IsNumeral c) : Silent cs :=
  silent_of_notMem fun hm => not_isNumeral_dollar (h _ hm)

theorem dollar_notMem_hex (width n : Nat) : '$' ∉ Text.hex width n := by
  intro h
  obtain ⟨value, hv, hc⟩ := Text.exists_of_mem_hex h
  have hother : ∀ value < 16, Nat.digitChar value ≠ '$' := by decide
  exact hother value hv hc

namespace Json

/-! ## Texts and names -/

theorem copies_escaped (cs : List Char) : Copies cs (cs.flatMap escaped) := by
  induction cs with
  | nil => exact .nil
  | cons c rest ih =>
    have hescape :
        ∀ letter, letter ≠ '$' → Copies (c :: rest) (['\\', letter] ++ rest.flatMap escaped) :=
      fun letter hl => .replace [c] (by decide) (fun hm => hl (List.mem_singleton.1 hm).symm) ih
    rw [List.flatMap_cons, escaped]
    repeat' split
    · exact hescape '"' (by decide)
    · exact hescape '\\' (by decide)
    · exact hescape 'b' (by decide)
    · exact hescape 'f' (by decide)
    · exact hescape 'n' (by decide)
    · exact hescape 'r' (by decide)
    · exact hescape 't' (by decide)
    · refine .replace [c] (by decide) (fun hm => ?_) ih
      exact dollar_notMem_hex 4 c.toNat ((List.mem_cons.1 hm).resolve_left (by decide))
    · exact ih.keep c

theorem silent_quoted {s : String} (h : ¬ Leaks s.toList) : Silent (quoted s) :=
  (silent_append_cons (fun hl => h ((copies_escaped s.toList).leaks hl)) (by decide)
    silent_nil).cons (by decide)

/-! ## Values -/

theorem isNumeral_doubleText {x : Double} {c : Char} (h : c ∈ doubleText x) : IsNumeral c := by
  refine isNumeral_signed (fun c hc => ?_) h
  split at hc
  · exact Scientific.isNumeral_plain (x.isNumeral_shortest .toEven) hc
  · exact Scientific.isNumeral_withExponent (x.isNumeral_shortest .toEven) hc

theorem silent_scalarText {v : Value} (h : v.Quiet) : Silent (scalarText v) := by
  cases v with
  | null => exact silent_of_notMem (by decide)
  | bool b => cases b <;> exact silent_of_notMem (by decide)
  | whole n => exact silent_of_isNumeral fun c hc => isNumeral_whole hc
  | double x => exact silent_of_isNumeral fun c hc => isNumeral_doubleText hc
  | text s => exact silent_quoted (h.texts s .self)
  | list items => exact silent_nil
  | table entries => exact silent_nil

theorem compactItems_eq (items : List Value) : compactItems items = separated compact items := by
  induction items with
  | nil => rfl
  | cons first rest ih =>
    cases rest with
    | nil => rfl
    | cons second more =>
      rw [separated_cons_cons, ← ih]
      rfl

/-- What is written for an entry in one line. -/
def compactEntry (entry : String × Value) : List Char := quoted entry.1 ++ ':' :: compact entry.2

theorem compactEntries_eq (entries : List (String × Value)) :
    compactEntries entries = separated compactEntry entries := by
  induction entries with
  | nil => rfl
  | cons first rest ih =>
    cases rest with
    | nil => rfl
    | cons second more =>
      rw [separated_cons_cons, ← ih]
      rfl

theorem compact_list (items : List Value) :
    compact (.list items) = '[' :: separated compact items ++ [']'] := by
  rw [← compactItems_eq]
  rfl

theorem compact_table (entries : List (String × Value)) :
    compact (.table entries) = '\x7b' :: separated compactEntry entries ++ ['\x7d'] := by
  rw [← compactEntries_eq]
  rfl

section Separated

variable {α : Type} {write : α → List Char} {xs : List α}

theorem silent_separated (h : ∀ x ∈ xs, Silent (write x)) : Silent (separated write xs) := by
  induction xs with
  | nil => exact silent_nil
  | cons first rest ih =>
    obtain ⟨hfirst, hrest⟩ := List.forall_mem_cons.1 h
    cases rest with
    | nil => exact hfirst
    | cons second more =>
      rw [separated_cons_cons]
      exact hfirst.append ((ih hrest).cons (by decide))

theorem within_separated {x : α} (h : x ∈ xs) : write x <:+: separated write xs := by
  induction xs with
  | nil => cases h
  | cons first rest ih =>
    cases rest with
    | nil =>
      rw [List.mem_singleton.1 h]
      exact List.infix_refl _
    | cons second more =>
      rw [separated_cons_cons]
      rcases List.mem_cons.1 h with rfl | h
      · exact (List.prefix_append _ _).isInfix
      · exact (ih h).trans ((List.suffix_cons ',' _).trans (List.suffix_append _ _)).isInfix

end Separated

/-- **A value without the private name is written without it.** -/
theorem silent_compact {v : Value} (h : v.Quiet) : Silent (compact v) := by
  induction v with
  | null | bool | whole | double | text => exact silent_scalarText h
  | list items ih =>
    rw [compact_list]
    have hitems := silent_separated fun item hm => ih item hm (h.part (.item hm .self))
    exact (hitems.append (silent_of_notMem (by decide))).cons (by decide)
  | table entries ih =>
    rw [compact_table]
    have hentry : ∀ entry ∈ entries, Silent (compactEntry entry) := fun entry hm =>
      (silent_quoted (h.names entries .self entry hm)).append
        ((ih entry hm (h.part (.entry hm .self))).cons (c := ':') (by decide))
    have hentries := silent_separated hentry
    exact (hentries.append (silent_of_notMem (by decide))).cons (by decide)

theorem silent_entryText {level : Nat} {entry : String × Value} (hn : ¬ Leaks entry.1.toList)
    (hv : Silent (pretty level entry.2)) : Silent (entryText level entry) :=
  (silent_quoted hn).append ((hv.cons (by decide)).cons (by decide))

theorem silent_newLine (level : Nat) : Silent (newLine level) := (silent_spaces _).cons (by decide)

/-- So it is in lines. -/
theorem silent_pretty {v : Value} (h : v.Quiet) (level : Nat) : Silent (pretty level v) := by
  induction v generalizing level with
  | null | bool | whole | double | text => exact silent_scalarText h
  | list items ih =>
    have hitems := silent_separated fun item hm =>
      (silent_newLine (level + 1)).append (ih item hm (h.part (.item hm .self)) (level + 1))
    rw [← prettyItems_eq] at hitems
    cases items with
    | nil =>
      show Silent ['[', ']']
      exact silent_of_notMem (by decide)
    | cons first rest =>
      exact ((hitems.append (silent_newLine level)).append
        (silent_of_notMem (by decide))).cons (by decide)
  | table entries ih =>
    have hentries := silent_separated fun (entry : String × Value) hm =>
      (silent_newLine (level + 1)).append (silent_entryText (h.names entries .self entry hm)
        (ih entry hm (h.part (.entry hm .self)) (level + 1)))
    rw [← prettyEntries_eq] at hentries
    cases entries with
    | nil =>
      show Silent ['\x7b', '\x7d']
      exact silent_of_notMem (by decide)
    | cons first rest =>
      exact ((hentries.append (silent_newLine level)).append
        (silent_of_notMem (by decide))).cons (by decide)

/-! ## Dates -/

theorem within_brackets (opening closing : Char) (cs : List Char) :
    cs <:+: opening :: cs ++ [closing] :=
  (List.prefix_append cs [closing]).isInfix.trans (List.suffix_cons opening _).isInfix

/-- What is written for a part of a value stands in what is written for the value. -/
theorem compact_within {part v : Value} (h : part.IsPart v) : compact part <:+: compact v := by
  induction h with
  | self => exact List.infix_refl _
  | item hm _ ih =>
    rw [compact_list]
    exact ih.trans ((within_separated hm).trans (within_brackets _ _ _))
  | @entry entries entry hm _ ih =>
    rw [compact_table]
    have hvalue : compact entry.2 <:+: compactEntry entry :=
      ((List.suffix_cons ':' _).trans (List.suffix_append _ _)).isInfix
    exact ih.trans (hvalue.trans ((within_separated hm).trans (within_brackets _ _ _)))

/-- A date that is written as it stands shows its name. -/
theorem leaks_compact_of_date {v : Value} (h : v.datetime? ≠ none) : Leaks (compact v) := by
  obtain ⟨stamp, hd⟩ := Option.ne_none_iff_exists'.1 h
  rw [Value.datetime?_eq_some_iff] at hd
  subst hd
  have hname : Leaks (quoted Value.datetimeField) := by decide
  have hentry : Leaks (compactEntry (Value.datetimeField, .text stamp)) :=
    hname.mono (List.prefix_append _ _).isInfix
  rw [Value.ofDatetime, compact_table]
  exact hentry.mono (within_brackets _ _ _)

/-- **With its dates as texts a discreet value is without the private name.** -/
theorem quiet_plain {v : Value} (h : v.Discreet) : (plain v).Quiet := by
  constructor
  · intro s hp
    obtain ⟨origin, ho, he⟩ := isPart_plain hp
    cases origin with
    | text =>
      cases he
      exact h.texts s ho
    | table entries =>
      rcases plain_table entries with ⟨stamp, hd, hw⟩ | ⟨-, hw⟩ <;> rw [hw] at he <;> cases he
      exact (h.part ho).stamp hd
    | null | bool | whole | double | list => cases he
  · intro entries hp
    obtain ⟨origin, ho, he⟩ := isPart_plain hp
    cases origin with
    | table inner =>
      rcases plain_table inner with ⟨stamp, -, hw⟩ | ⟨hd, hw⟩ <;> rw [hw] at he <;> cases he
      rw [plainEntries_eq_map]
      exact List.forall_mem_map.2 (h.names inner ho hd)
    | null | bool | whole | double | text | list => cases he

/-- A value without dates is written as it stands. -/
theorem plain_eq_self {v : Value} (h : ∀ part : Value, part.IsPart v → part.datetime? = none) :
    plain v = v := by
  induction v with
  | null | bool | whole | double | text => rfl
  | list items ih =>
    have hitems : items.map plain = items.map id :=
      List.map_congr_left fun item hm => ih item hm fun part hp => h part (.item hm hp)
    rw [plain_list, hitems, List.map_id]
  | table entries ih =>
    have hentries : (entries.map fun entry => (entry.1, plain entry.2)) = entries.map id := by
      refine List.map_congr_left fun entry hm => ?_
      rw [ih entry hm fun part hp => h part (.entry hm hp)]
      rfl
    rcases plain_table entries with ⟨stamp, hd, -⟩ | ⟨-, hw⟩
    · rw [h _ .self] at hd
      cases hd
    · rw [hw, plainEntries_eq_map, hentries, List.map_id]

end Json

/-- **What is written as JSON for a discreet document does not contain the private name.** -/
theorem Document.Discreet.not_leaks_json {doc : Document} (h : doc.Discreet) {text : String}
    (he : FileFormat.json.encode doc = .ok text) : ¬ Leaks text.toList := by
  cases he
  rw [String.toList_ofList]
  have hroot : (Value.table (Json.plainEntries doc.entries)).Quiet := by
    refine Value.quiet_table ?_
    rw [Json.plainEntries_eq_map]
    exact List.forall_mem_map.2 fun entry hm =>
      ⟨h.names entry hm, Json.quiet_plain (h.values entry hm)⟩
  exact ((Json.silent_pretty hroot 0).append (silent_of_notMem (by decide))).not_leaks

end Sweep
