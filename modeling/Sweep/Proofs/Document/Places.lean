import Sweep.Proofs.Document.Names
import Sweep.Proofs.Document.Parts

/-!
# Places in a document

A place is told by the names and indices on the way to it, so the items of lists have places too,
which no key of a template can name. Whatever stands at a place is a part (`isPart_of_at?`).
-/

set_option autoImplicit false

namespace Sweep

namespace Value

/-- A step into a value: to the entry of a name, or to the item of an index. -/
inductive Step where
  | name (name : String)
  | index (index : Nat)
deriving DecidableEq, Repr

/-- What stands at a place in a value. -/
def at? : List Step → Value → Option Value
  | [], v => some v
  | .name name :: rest, .table entries => (Entries.find? name entries).bind (at? rest)
  | .index index :: rest, .list items => items[index]?.bind (at? rest)
  | _ :: _, _ => none

theorem at?_name_eq_some_iff {name : String} {rest : List Step} {v w : Value} :
    v.at? (.name name :: rest) = some w ↔
      ∃ entries inner, v = .table entries ∧ Entries.find? name entries = some inner ∧
        inner.at? rest = some w := by
  constructor
  · intro h
    rw [at?.eq_def] at h
    split at h
    · next he => cases he
    · next he =>
      cases he
      obtain ⟨inner, hf, hw⟩ := Option.bind_eq_some_iff.1 h
      exact ⟨_, inner, rfl, hf, hw⟩
    · next he => cases he
    · cases h
  · rintro ⟨entries, inner, rfl, hf, hw⟩
    rw [at?, hf]
    exact hw

theorem at?_index_eq_some_iff {index : Nat} {rest : List Step} {v w : Value} :
    v.at? (.index index :: rest) = some w ↔
      ∃ items inner, v = .list items ∧ items[index]? = some inner ∧ inner.at? rest = some w := by
  constructor
  · intro h
    rw [at?.eq_def] at h
    split at h
    · next he => cases he
    · next he => cases he
    · next he =>
      cases he
      obtain ⟨inner, hf, hw⟩ := Option.bind_eq_some_iff.1 h
      exact ⟨_, inner, rfl, hf, hw⟩
    · cases h
  · rintro ⟨items, inner, rfl, hf, hw⟩
    rw [at?, hf]
    exact hw

/-- What stands at a place is a part. -/
theorem isPart_of_at? {path : List Step} {v w : Value} (h : v.at? path = some w) : w.IsPart v := by
  induction path generalizing v with
  | nil =>
    cases h
    exact .self
  | cons step rest ih =>
    cases step with
    | name name =>
      obtain ⟨entries, inner, rfl, hf, hw⟩ := at?_name_eq_some_iff.1 h
      exact .entry (Entries.mem_of_find? hf) (ih hw)
    | index index =>
      obtain ⟨items, inner, rfl, hf, hw⟩ := at?_index_eq_some_iff.1 h
      exact .item (List.mem_of_getElem? hf) (ih hw)

end Value

namespace Document

/-- What stands at a place in a document. -/
def at? (path : List Value.Step) (doc : Document) :
    Option Value := (Value.table doc.entries).at? path

end Document

end Sweep
