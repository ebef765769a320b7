import Mathlib.Data.List.Pairwise
import Sweep.Proofs.Document.Put

/-!
# Several writes

`Document.fill` puts values at several keys, one after the other. Where the keys are pairwise apart,
the order does not matter (`fill_perm`), every write is seen in the end (`get_fill_of_mem`), and a
second round of writes at the same keys leaves nothing of the first (`fill_fill`). The last law is
what lets a walk go from one row of values to the next without undoing anything in between.
-/

set_option autoImplicit false

namespace Sweep.Document

/-- The document with values put at keys, one after the other. -/
def fill (doc : Document) (writes : List (Key × Value)) : Document :=
  writes.foldl (fun doc write => doc.put write.1 write.2) doc

theorem fill_cons (doc : Document) (write : Key × Value) (rest : List (Key × Value)) :
    doc.fill (write :: rest) = (doc.put write.1 write.2).fill rest := rfl

theorem fill_append (doc : Document) (first second : List (Key × Value)) :
    doc.fill (first ++ second) = (doc.fill first).fill second := List.foldl_append

theorem fill_put {key : Key} {writes : List (Key × Value)} (h : ∀ write ∈ writes, key.Apart write.1)
    (doc : Document) (new : Value) :
    (doc.put key new).fill writes = (doc.fill writes).put key new := by
  induction writes generalizing doc with
  | nil => rfl
  | cons write rest ih =>
    rw [List.forall_mem_cons] at h
    rw [fill_cons, fill_cons, put_comm h.1, ih h.2]

theorem get_fill_of_apart {key : Key} {writes : List (Key × Value)}
    (h : ∀ write ∈ writes, write.1.Apart key) (doc : Document) :
    (doc.fill writes).get key = doc.get key := by
  induction writes generalizing doc with
  | nil => rfl
  | cons write rest ih =>
    rw [List.forall_mem_cons] at h
    rw [fill_cons, ih h.2, get_put_of_apart h.1]

theorem get_fill_of_mem {writes : List (Key × Value)}
    (hp : (writes.map Prod.fst).Pairwise Key.Apart) {key : Key} {new : Value}
    (hw : (key, new) ∈ writes) {doc : Document} {held : Value} (h : doc.get key = .ok held) :
    (doc.fill writes).get key = .ok new := by
  induction writes generalizing doc with
  | nil => exact absurd hw (by simp)
  | cons write rest ih =>
    rw [List.map_cons, List.pairwise_cons] at hp
    have ha : ∀ other ∈ rest, write.1.Apart other.1 :=
      fun other ho => hp.1 _ (List.mem_map_of_mem ho)
    rw [fill_cons]
    rcases List.mem_cons.1 hw with rfl | hr
    · rw [get_fill_of_apart (fun other ho => (ha other ho).symm)]
      exact get_put_self h new
    · exact ih hp.2 hr (by rw [get_put_of_apart (ha _ hr), h])

theorem table_of_get_fill {key : Key} {writes : List (Key × Value)}
    (h : ∀ write ∈ writes, ¬ write.1.segments <+: key.segments) {doc : Document}
    {inner : List (String × Value)} (ht : doc.get key = .ok (.table inner)) :
    ∃ changed, (doc.fill writes).get key = .ok (.table changed) := by
  induction writes generalizing doc inner with
  | nil => exact ⟨inner, ht⟩
  | cons write rest ih =>
    rw [List.forall_mem_cons] at h
    obtain ⟨changed, hc⟩ := table_of_lookUp_putAt key write.2 h.1 ht
    exact ih h.2 hc

/-- **The last round of writes counts.** -/
theorem fill_fill {first second : List (Key × Value)}
    (hk : first.map Prod.fst = second.map Prod.fst) (hp : (first.map Prod.fst).Pairwise Key.Apart)
    (doc : Document) :
    (doc.fill first).fill second = doc.fill second := by
  induction first generalizing second doc with
  | nil => rfl
  | cons write rest ih =>
    cases second with
    | nil => exact absurd hk (by simp)
    | cons again others =>
      simp only [List.map_cons, List.cons.injEq] at hk
      rw [List.map_cons, List.pairwise_cons] at hp
      have ha : ∀ other ∈ rest, write.1.Apart other.1 :=
        fun other ho => hp.1 _ (List.mem_map_of_mem ho)
      -- the first write waits for the rest of its round, and then meets the second write at its key
      rw [fill_cons, fill_cons, fill_cons, ← hk.1, ← fill_put ha, put_put, ih hk.2 hp.2]

theorem fill_self {doc : Document} {writes : List (Key × Value)}
    (h : ∀ write ∈ writes, doc.get write.1 = .ok write.2) : doc.fill writes = doc := by
  induction writes with
  | nil => rfl
  | cons write rest ih =>
    rw [List.forall_mem_cons] at h
    rw [fill_cons, put_self h.1, ih h.2]

/-- **The order of the writes does not matter.** -/
theorem fill_perm {first second : List (Key × Value)} (h : first.Perm second)
    (hp : (first.map Prod.fst).Pairwise Key.Apart) (doc : Document) :
    doc.fill first = doc.fill second := by
  refine h.foldl_eq' (fun a ha b hb doc => ?_) doc
  rw [List.pairwise_map] at hp
  have : Std.Symm fun a b : Key × Value => a.1.Apart b.1 := ⟨fun _ _ h => h.symm⟩
  by_cases he : a = b
  · rw [he]
  · exact put_comm (hp.forall ha hb he) doc _ _

theorem namesAt_fill {writes : List (Key × Value)} {path : List String}
    (h : ∀ write ∈ writes, ¬ write.1.segments <+: path) (doc : Document) :
    (doc.fill writes).namesAt path = doc.namesAt path := by
  induction writes generalizing doc with
  | nil => rfl
  | cons write rest ih =>
    rw [List.forall_mem_cons] at h
    rw [fill_cons, ih h.2, namesAt_put h.1]

end Sweep.Document
