import Sweep.Document.Entries

/-!
# New names and the place of a name

A name that is not there is found nowhere and is put at the end; behind entries that do not have it,
a name is found and changed where it stands. A name finds its value also among entries whose values
are all changed, and among those that are kept.
-/

set_option autoImplicit false

namespace Sweep.Entries

variable {α : Type} {name : String}

theorem find?_of_notMem {entries : List (String × α)} (h : name ∉ entries.map Prod.fst) :
    find? name entries = none := by
  induction entries with
  | nil => rfl
  | cons entry rest ih =>
    rw [List.map_cons, List.mem_cons, not_or] at h
    rw [find?, if_neg (Ne.symm h.1), ih h.2]

theorem mem_of_find? {entries : List (String × α)} {value : α}
    (h : find? name entries = some value) :
    (name, value) ∈ entries := by
  induction entries with
  | nil => exact absurd h (by simp [find?])
  | cons entry rest ih =>
    rw [find?] at h
    split at h
    · next he =>
      cases h
      rw [← he]
      exact List.mem_cons_self
    · exact List.mem_cons_of_mem _ (ih h)

theorem put_of_notMem {entries : List (String × α)} (h : name ∉ entries.map Prod.fst) (value : α) :
    put name value entries = entries ++ [(name, value)] := by
  induction entries with
  | nil => rfl
  | cons entry rest ih =>
    rw [List.map_cons, List.mem_cons, not_or] at h
    rw [put, if_neg (Ne.symm h.1), ih h.2]
    rfl

theorem find?_append (name : String) (before after : List (String × α)) :
    find? name (before ++ after) = (find? name before).or (find? name after) := by
  induction before with
  | nil => rfl
  | cons entry rest ih =>
    rw [List.cons_append, find?, find?]
    split
    · rfl
    · exact ih

theorem find?_append_of_notMem {before : List (String × α)} (h : name ∉ before.map Prod.fst)
    (after : List (String × α)) :
    find? name (before ++ after) = find? name after := by
  rw [find?_append, find?_of_notMem h, Option.none_or]

theorem assign_append_of_notMem {before : List (String × α)} (h : name ∉ before.map Prod.fst)
    (new : α) (after : List (String × α)) :
    assign name new (before ++ after) = before ++ assign name new after := by
  induction before with
  | nil => rfl
  | cons entry rest ih =>
    rw [List.map_cons, List.mem_cons, not_or] at h
    rw [List.cons_append, assign, if_neg (Ne.symm h.1), ih h.2, List.cons_append]

theorem find?_last {before : List (String × α)} (h : name ∉ before.map Prod.fst) (value : α) :
    find? name (before ++ [(name, value)]) = some value := by
  rw [find?_append_of_notMem h, find?, if_pos rfl]

theorem assign_last {before : List (String × α)} (h : name ∉ before.map Prod.fst) (value new : α) :
    assign name new (before ++ [(name, value)]) = before ++ [(name, new)] := by
  rw [assign_append_of_notMem h, assign, if_pos rfl]

/-! ## Entries changed and left out -/

theorem find?_map {β : Type} (f : α → β) (name : String) (entries : List (String × α)) :
    find? name (entries.map fun entry => (entry.1, f entry.2)) = (find? name entries).map f := by
  induction entries with
  | nil => rfl
  | cons entry rest ih =>
    rw [List.map_cons, find?, find?]
    split
    · rfl
    · exact ih

theorem find?_filter {entries : List (String × α)} (hd : (entries.map Prod.fst).Nodup)
    (keep : α → Bool) (name : String) :
    find? name (entries.filter fun entry => keep entry.2) = (find? name entries).filter keep := by
  induction entries with
  | nil => rfl
  | cons entry rest ih =>
    rw [List.map_cons, List.nodup_cons] at hd
    obtain ⟨other, value⟩ := entry
    have hrest := ih hd.2
    cases hk : keep value with
    | true =>
      rw [List.filter_cons_of_pos (by exact hk), find?, find?]
      split
      · rw [Option.filter_some_pos hk]
      · exact hrest
    | false =>
      rw [List.filter_cons_of_neg (by simp [hk]), find?]
      split
      · next he =>
        -- the name occurs once, so nothing is found behind the entry that is left out
        rw [Option.filter_some_neg (by simp [hk]), hrest, find?_of_notMem (he ▸ hd.1)]
        rfl
      · exact hrest

end Sweep.Entries
