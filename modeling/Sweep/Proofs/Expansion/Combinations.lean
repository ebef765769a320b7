import Mathlib.Algebra.BigOperators.Group.List.Basic
import Sweep.Proofs.Expansion.Copies

/-!
# Combinations

On a document whose groups all hold arrays that fit, the walk is a plain loop over the
**combinations** of rows, one row for each group. They come in the order of a number in mixed radix:
the last group varies fastest, and the combination in place `t` is the one whose number is `t`
(`map_number_combinations`).

What stands at the leaf of a combination is the original document with the chosen element at every
key (`IsCombination`). The levels of the walk write one after the other, each on the document of the
level above; that this comes to the same is because all keys of all groups hold arrays in the
*original* document and are therefore pairwise apart, so no level sees the writes of another.
-/

set_option autoImplicit false

namespace Sweep

open Expansion

variable {m : Type → Type} [Monad m]

/-! ## Numbers in mixed radix -/

/-- The number of a choice of rows; the last place has weight one. -/
def number : (sizes : List Nat) → (rows : List Nat) → Nat
  | _ :: sizes, row :: rows => row * sizes.prod + number sizes rows
  | _, _ => 0

/-- All choices of one row per size, in the order of their numbers. -/
def combinations : (sizes : List Nat) → List (List Nat)
  | [] => [[]]
  | size :: sizes => (List.range size).flatMap fun row => (combinations sizes).map (row :: ·)

theorem range_mul (size width : Nat) :
    List.range (size * width) = (List.range size).flatMap fun row =>
      (List.range width).map (row * width + ·) := by
  induction size with
  | zero => simp
  | succ size ih =>
    rw [Nat.succ_mul, List.range_add, ih, List.range_succ, List.flatMap_append,
      List.flatMap_singleton]

/-- **The combination in place `t` has the number `t`.** -/
theorem map_number_combinations (sizes : List Nat) :
    (combinations sizes).map (number sizes) = List.range sizes.prod := by
  induction sizes with
  | nil => rfl
  | cons size sizes ih =>
    rw [combinations, List.map_flatMap, List.prod_cons, range_mul]
    congr 1
    funext row
    rw [← ih, List.map_map, List.map_map]
    rfl

theorem length_combinations (sizes : List Nat) : (combinations sizes).length = sizes.prod := by
  rw [← List.length_map (number sizes), map_number_combinations, List.length_range]

theorem number_getElem_combinations {sizes : List Nat} {t : Nat}
    (h : t < (combinations sizes).length) :
    number sizes (combinations sizes)[t] = t := by
  have hm : ((combinations sizes).map (number sizes))[t]? = some t := by
    rw [map_number_combinations, List.getElem?_range (length_combinations sizes ▸ h)]
  rw [List.getElem?_map, List.getElem?_eq_getElem h] at hm
  exact Option.some.inj hm

theorem rows_lt_of_mem_combinations {sizes rows : List Nat} (h : rows ∈ combinations sizes) :
    List.Forall₂ (· < ·) rows sizes := by
  induction sizes generalizing rows with
  | nil =>
    rw [combinations, List.mem_singleton] at h
    rw [h]
    exact .nil
  | cons size sizes ih =>
    rw [combinations] at h
    obtain ⟨row, hr, hm⟩ := List.mem_flatMap.1 h
    obtain ⟨others, ho, rfl⟩ := List.mem_map.1 hm
    exact .cons (List.mem_range.1 hr) (ih ho)

/-! ## Loops of loops -/

namespace Expansion

variable {α β : Type}

theorem untilFault_flatMap [LawfulMonad m] (visit : β → m Outcome) (f : α → List β)
    (items : List α) :
    untilFault visit (items.flatMap f) =
      untilFault (fun item => untilFault visit (f item)) items := by
  induction items with
  | nil => rfl
  | cons item rest ih =>
    rw [List.flatMap_cons, untilFault_append, ih]
    rfl

theorem untilFault_cons_of_ok {σ : Type} {visit : α → StateM σ Outcome} {item : α} {s next : σ}
    (h : visit item s = (.ok (), next)) (rest : List α) :
    untilFault visit (item :: rest) s = untilFault visit rest next := by
  simp only [untilFault, bind, StateT.bind, h]

theorem untilFault_logged {σ : Type} {sink : Sink (StateM σ)}
    (hs : ∀ doc s, (sink doc s).1 = (.ok (), doc)) (leaves past : List Document) (s : σ) :
    untilFault sink.logged.outcome leaves (s, past) =
      (.ok (), (leaves.foldl (fun s leaf => (sink leaf s).2) s, past ++ leaves)) := by
  induction leaves generalizing past s with
  | nil =>
    rw [List.append_nil]
    rfl
  | cons leaf rest ih =>
    have hv : sink.logged.outcome leaf (s, past) = (.ok (), ((sink leaf s).2, past ++ [leaf])) := by
      show ((sink leaf s).1.1, ((sink leaf s).2, past ++ [leaf])) = _
      rw [hs]
    rw [untilFault_cons_of_ok hv, ih, List.append_assoc, List.singleton_append, List.foldl_cons]

end Expansion

/-! ## The leaf of a combination -/

/-- The writes of a combination: from every group, the elements of the chosen row. -/
def choices (doc : Document) : List (List Key) → List Nat → List (Key × Value)
  | group :: groups, row :: rows => Copying.rowAt doc group row ++ choices doc groups rows
  | _, _ => []

/-- Every group holds arrays of its own size. -/
def Document.Fits (doc : Document) (groups : List (List Key)) (sizes : List Nat) : Prop :=
  List.Forall₂ doc.HoldsArrays groups sizes

section Fits

variable {doc doc' : Document} {groups : List (List Key)} {sizes rows : List Nat}

theorem Document.Fits.holds_array (h : doc.Fits groups sizes) {key : Key}
    (hk : key ∈ groups.flatten) :
    ∃ items, doc.get key = .ok (.list items) := by
  induction h with
  | nil => exact absurd hk (by simp)
  | cons hg _ ih =>
    rw [List.flatten_cons, List.mem_append] at hk
    rcases hk with hk | hk
    · obtain ⟨items, hi, -⟩ := hg key hk
      exact ⟨items, hi⟩
    · exact ih hk

theorem Document.Fits.apart (h : doc.Fits groups sizes) (hd : groups.flatten.Nodup) :
    groups.flatten.Pairwise Key.Apart :=
  apart_of_arrays (fun _ hk => h.holds_array hk) hd

theorem Document.Fits.congr (h : doc.Fits groups sizes)
    (hg : ∀ key ∈ groups.flatten, doc'.get key = doc.get key) : doc'.Fits groups sizes := by
  induction h with
  | nil => exact .nil
  | cons hh _ ih =>
    rw [List.flatten_cons] at hg
    refine .cons (fun key hk => ?_) (ih fun key hk => hg key (List.mem_append_right _ hk))
    rw [hg key (List.mem_append_left _ hk)]
    exact hh key hk

theorem choices_congr (hg : ∀ key ∈ groups.flatten, doc'.get key = doc.get key) (rows : List Nat) :
    choices doc' groups rows = choices doc groups rows := by
  induction groups generalizing rows with
  | nil => rfl
  | cons group groups ih =>
    cases rows with
    | nil => rfl
    | cons row rows =>
      rw [List.flatten_cons] at hg
      have hc : group.map doc'.columnAt = group.map doc.columnAt :=
          List.map_congr_left fun key hk => by
        rw [Document.columnAt, Document.columnAt, hg key (List.mem_append_left _ hk)]
      rw [choices, choices, Copying.rowAt, hc, ih fun key hk => hg key (List.mem_append_right _ hk)]
      rfl

theorem keys_choices (h : doc.Fits groups sizes) (hr : List.Forall₂ (· < ·) rows sizes) :
    (choices doc groups rows).map Prod.fst = groups.flatten := by
  induction h generalizing rows with
  | nil => cases hr; rfl
  | cons hg _ ih =>
    cases hr with
    | cons hlt hrest =>
      rw [choices, List.map_append, Copying.keys_rowAt hg hlt, ih hrest, List.flatten_cons]

theorem mem_choices (h : doc.Fits groups sizes) (hr : List.Forall₂ (· < ·) rows sizes)
    {choice : List Key × Nat} (hc : choice ∈ groups.zip rows) {key : Key} (hk : key ∈ choice.1) :
    ∃ items value, doc.get key = .ok (.list items) ∧ items[choice.2]? = some value ∧
      (key, value) ∈ choices doc groups rows := by
  induction h generalizing rows with
  | nil => exact absurd hc (by simp)
  | cons hg _ ih =>
    cases hr with
    | @cons row _ rows _ hlt hrest =>
      rw [List.zip_cons_cons, List.mem_cons] at hc
      rcases hc with rfl | hc
      · obtain ⟨items, hi, rfl⟩ := hg key hk
        refine ⟨items, items[row], hi, List.getElem?_eq_getElem hlt, List.mem_append_left _ ?_⟩
        rw [Copying.rowAt_eq_map hg hlt]
        refine List.mem_map.2 ⟨key, hk, ?_⟩
        rw [doc.columnAt_eq hi, List.getElem?_eq_getElem hlt, Option.getD_some]
      · obtain ⟨items, value, hi, hv, hm⟩ := ih hrest hc
        exact ⟨items, value, hi, hv, List.mem_append_right _ hm⟩

end Fits

/-- All of some keys hold the elements of one row of their arrays. -/
def Document.TakesRow (doc leaf : Document) (keys : List Key) (row : Nat) : Prop :=
  ∀ key ∈ keys, ∃ items value, doc.get key = .ok (.list items) ∧ items[row]? = some value ∧
    leaf.get key = .ok value

/-- A document is the combination of some rows if every key of a group was replaced in place by the
element of the group's row, and everything else is as it was. -/
structure IsCombination (doc : Document) (groups : List (List Key)) (rows : List Nat)
    (leaf : Document) : Prop where
  eq_fill : leaf = doc.fill (choices doc groups rows)
  takes_row : ∀ choice ∈ groups.zip rows, doc.TakesRow leaf choice.1 choice.2
  /-- other keys hold what they held -/
  elsewhere : ∀ key, (∀ member ∈ groups.flatten, member.Apart key) → leaf.get key = doc.get key
  /-- the names of a table keep their order -/
  names : ∀ path, (∀ member ∈ groups.flatten, ¬ member.segments <+: path) →
    leaf.namesAt path = doc.namesAt path

theorem isCombination_fill {doc : Document} {groups : List (List Key)} {sizes rows : List Nat}
    (h : doc.Fits groups sizes) (hd : groups.flatten.Nodup) (hr : List.Forall₂ (· < ·) rows sizes) :
    IsCombination doc groups rows (doc.fill (choices doc groups rows)) := by
  have hk := keys_choices h hr
  have hmem : ∀ write ∈ choices doc groups rows, write.1 ∈ groups.flatten := fun write hw =>
    hk ▸ List.mem_map_of_mem hw
  refine ⟨rfl, fun choice hc key hm => ?_, fun key ha => ?_, fun path ha => ?_⟩
  · obtain ⟨items, value, hi, hv, hw⟩ := mem_choices h hr hc hm
    exact ⟨items, value, hi, hv, Document.get_fill_of_mem (hk ▸ h.apart hd) hw hi⟩
  · exact Document.get_fill_of_apart (fun write hw => ha _ (hmem write hw)) doc
  · exact Document.namesAt_fill (fun write hw => ha _ (hmem write hw)) doc

/-- **On a document that fits, the walk is one loop over the combinations**, in the order of their
numbers. -/
theorem copying_eq_combinations [LawfulMonad m] {bindings : Bindings} (hb : bindings.Built)
    (visit : Document → m Outcome) {keys : List Key} {doc : Document} {sizes : List Nat}
    (h : doc.Fits (keys.map bindings.find) sizes) (hd : (keys.map bindings.find).flatten.Nodup) :
    Copying.expand visit bindings keys doc =
      untilFault visit
        ((combinations sizes).map fun rows =>
          doc.fill (choices doc (keys.map bindings.find) rows)) := by
  induction keys generalizing doc sizes with
  | nil =>
    cases h
    rw [Copying.expand, combinations, List.map_singleton, untilFault]
    exact (bind_pure _).symm.trans (bind_congr fun outcome => by cases outcome <;> rfl)
  | cons head rest ih =>
    have hp := h.apart hd
    rw [List.map_cons, List.flatten_cons] at hp hd
    cases h with
    | @cons _ size _ sizes hg hrest =>
      rw [Copying.expand_cons hb,
        (Copying.groupLength_eq_ok_iff bindings doc head size).2 hg, combinations,
        List.map_flatMap, untilFault_flatMap]
      refine untilFault_congr fun row hr => ?_
      -- below, every group still holds the arrays that it holds in `doc`
      have hk := Copying.keys_rowAt hg (List.mem_range.1 hr)
      have hsame : ∀ key ∈ (rest.map bindings.find).flatten,
          (doc.fill (Copying.rowAt doc (bindings.find head) row)).get key =
            doc.get key := fun key hm =>
        Document.get_fill_of_apart (fun write hw =>
          (List.pairwise_append.1 hp).2.2 write.1 (hk ▸ List.mem_map_of_mem hw) key hm) doc
      have hfit : Document.Fits _ (rest.map bindings.find) sizes := Document.Fits.congr hrest hsame
      rw [ih hfit (List.nodup_append'.1 hd).2.1, List.map_map]
      refine congrArg _ (List.map_congr_left fun rows _ => ?_)
      rw [choices_congr hsame, Function.comp_apply, List.map_cons, choices, Document.fill_append]

end Sweep
