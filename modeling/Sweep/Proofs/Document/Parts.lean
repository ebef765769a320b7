import Sweep.Document

/-!
# The parts of a value

A value with everything that lies in it, at any depth: itself, the items of a list and the values of
a table, and their parts in turn. What is said of *all* parts of a document, or of *some* part, is
how a condition on documents is stated that does not care where in the document it is met, such as
that no table names anything twice.

`Value.induct` is the induction over values that goes with it: a fact about all items of a list
gives one about the list.
-/

set_option autoImplicit false

namespace Sweep

namespace Value

/-- A value lies in another one, or is that value. -/
inductive IsPart (part : Value) : Value → Prop where
  | self : IsPart part part
  | item {items : List Value} {item : Value} : item ∈ items → IsPart part item →
      IsPart part (.list items)
  | entry {entries : List (String × Value)} {entry : String × Value} : entry ∈ entries →
      IsPart part entry.2 → IsPart part (.table entries)

/-- Induction over values, with the hypothesis for all items of a list and all entries of a
table. -/
@[induction_eliminator]
theorem induct {motive : Value → Prop} (null : motive .null) (bool : ∀ b, motive (.bool b))
    (whole : ∀ n, motive (.whole n)) (double : ∀ x, motive (.double x))
    (text : ∀ s, motive (.text s))
    (list : ∀ items, (∀ item ∈ items, motive item) → motive (.list items))
    (table : ∀ entries, (∀ entry ∈ entries, motive entry.2) → motive (.table entries)) (v : Value) :
    motive v :=
  match v with
  | .null => null
  | .bool b => bool b
  | .whole n => whole n
  | .double x => double x
  | .text s => text s
  | .list items => list items fun item _ => induct null bool whole double text list table item
  | .table entries =>
    table entries fun entry _ => induct null bool whole double text list table entry.2
termination_by sizeOf v
decreasing_by
  · rename_i hm
    have := List.sizeOf_lt_of_mem hm
    simp only [Value.list.sizeOf_spec]
    omega
  · rename_i hm
    have hs := List.sizeOf_lt_of_mem hm
    have he : sizeOf entry = 1 + sizeOf entry.1 + sizeOf entry.2 := rfl
    simp only [Value.table.sizeOf_spec]
    omega

theorem isPart_list_iff {part : Value} {items : List Value} :
    part.IsPart (.list items) ↔ part = .list items ∨ ∃ item ∈ items, part.IsPart item := by
  constructor
  · rintro (_ | ⟨hm, hp⟩)
    · exact .inl rfl
    · exact .inr ⟨_, hm, hp⟩
  · rintro (rfl | ⟨item, hm, hp⟩)
    · exact .self
    · exact .item hm hp

theorem isPart_table_iff {part : Value} {entries : List (String × Value)} :
    part.IsPart (.table entries) ↔
      part = .table entries ∨ ∃ entry ∈ entries, part.IsPart entry.2 := by
  constructor
  · rintro (_ | _ | ⟨hm, hp⟩)
    · exact .inl rfl
    · exact .inr ⟨_, hm, hp⟩
  · rintro (rfl | ⟨entry, hm, hp⟩)
    · exact .self
    · exact .entry hm hp

/-- A value without parts of its own has one part. -/
theorem isPart_scalar_iff {part v : Value} (hlist : ∀ items, v ≠ .list items)
    (htable : ∀ entries, v ≠ .table entries) :
    part.IsPart v ↔ part = v := by
  constructor
  · rintro (_ | _)
    · rfl
    · exact absurd rfl (hlist _)
    · exact absurd rfl (htable _)
  · rintro rfl
    exact .self

/-! ## Dates -/

/-- The parts of a date are itself and its text. -/
theorem isPart_date_iff {part : Value} {stamp : String} :
    part.IsPart (.ofDatetime stamp) ↔ part = .ofDatetime stamp ∨ part = .text stamp := by
  rw [ofDatetime, isPart_table_iff]
  constructor
  · rintro (he | ⟨entry, hm, hp⟩)
    · exact .inl he
    · rw [List.mem_singleton.1 hm] at hp
      exact .inr ((isPart_scalar_iff (by simp) (by simp)).1 hp)
  · rintro (he | rfl)
    · exact .inl he
    · exact .inr ⟨_, List.mem_singleton_self _, .self⟩

theorem datetime?_eq_some_iff (v : Value) (stamp : String) :
    v.datetime? = some stamp ↔ v = .ofDatetime stamp := by
  constructor
  · intro h
    rw [datetime?.eq_def] at h
    split at h
    · split at h
      · next he =>
        cases h
        rw [he]
        rfl
      · cases h
    · cases h
  · rintro rfl
    rfl

/-- Only a table that has the name of a date can be one. -/
theorem datetime?_of_notMem {entries : List (String × Value)}
    (h : datetimeField ∉ entries.map Prod.fst) :
    (Value.table entries).datetime? = none := by
  cases hd : (Value.table entries).datetime? with
  | none => rfl
  | some stamp =>
    rw [datetime?_eq_some_iff] at hd
    cases hd
    exact absurd List.mem_cons_self h

/-! ## Depth -/

mutual

/-- How many containers lie inside each other. -/
def depth : Value → Nat
  | .list items => itemsDepth items + 1
  | .table entries => entriesDepth entries + 1
  | _ => 0

def itemsDepth : List Value → Nat
  | [] => 0
  | first :: rest => max (depth first) (itemsDepth rest)

def entriesDepth : List (String × Value) → Nat
  | [] => 0
  | (_, first) :: rest => max (depth first) (entriesDepth rest)

end

theorem itemsDepth_le_iff {items : List Value} {bound : Nat} :
    itemsDepth items ≤ bound ↔ ∀ item ∈ items, item.depth ≤ bound := by
  induction items with
  | nil => simp [itemsDepth]
  | cons first rest ih => rw [itemsDepth, Nat.max_le, ih, List.forall_mem_cons]

theorem entriesDepth_le_iff {entries : List (String × Value)} {bound : Nat} :
    entriesDepth entries ≤ bound ↔ ∀ entry ∈ entries, entry.2.depth ≤ bound := by
  induction entries with
  | nil => simp [entriesDepth]
  | cons first rest ih => rw [entriesDepth, Nat.max_le, ih, List.forall_mem_cons]

end Value

namespace Document

/-- A value lies in a document, below the root. -/
def HasPart (doc : Document) (part : Value) : Prop := ∃ entry ∈ doc.entries, part.IsPart entry.2

/-- No table of a document names anything twice, the root included. -/
structure DistinctNames (doc : Document) : Prop where
  root : (doc.entries.map Prod.fst).Nodup
  below : ∀ entries, doc.HasPart (.table entries) → (entries.map Prod.fst).Nodup

end Document

end Sweep
