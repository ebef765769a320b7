import Mathlib.Data.List.Perm.Basic
import Mathlib.Data.Multiset.Bind
import Sweep.Proofs.Bindings.Drivers
import Sweep.Proofs.Expansion.Combinations

/-!
# Keys in another order

A walk over keys in another order, or with another member of a group in place of its driver, hands
over the same documents in another order. Only the groups matter to what a level does, so it is
enough to take the groups in another order; and two levels next to each other can change places,
since they write at keys that are apart: the loops over their rows change places, and so do the
writes of any two rows.

> `fillings` of groups in another order are the same documents (`fillings_perm`).

A reduction to one driver per group is a way to choose an order and the members, so it can change
the order of what is handed over, and nothing else.
-/

set_option autoImplicit false

namespace Sweep

open Expansion

/-! ## Writes that change places -/

theorem Document.fill_comm {first second : List (Key × Value)}
    (h : ∀ write ∈ first, ∀ other ∈ second, write.1.Apart other.1) (doc : Document) :
    (doc.fill first).fill second = (doc.fill second).fill first := by
  induction first generalizing doc with
  | nil => rfl
  | cons write rest ih =>
    obtain ⟨hw, hr⟩ := List.forall_mem_cons.1 h
    rw [fill_cons, fill_cons, ih hr, fill_put hw]

theorem Copying.mem_of_mem_rowAt {doc : Document} {keys : List Key} {row : Nat}
    {write : Key × Value} (h : write ∈ rowAt doc keys row) : write.1 ∈ keys := by
  obtain ⟨column, hc, hw⟩ := List.mem_filterMap.1 h
  obtain ⟨key, hk, rfl⟩ := List.mem_map.1 hc
  obtain ⟨value, -, rfl⟩ := Option.map_eq_some_iff.1 hw
  exact hk

/-! ## Loops over the rows of groups -/

/-- The number of rows of a group, measured at its first key. -/
def Document.rows (doc : Document) : List Key → Nat
  | [] => 0
  | key :: _ => (doc.columnAt key).items.length

/-- A document with every combination of rows of some groups of `doc` written into it; the first
group is the outermost loop. -/
def Document.fillings (doc : Document) :
    (groups : List (List Key)) → (base : Document) → List Document
  | [], base => [base]
  | group :: groups, base =>
    (List.range (doc.rows group)).flatMap fun row =>
      fillings doc groups (base.fill (Copying.rowAt doc group row))

/-- No group has a key that is a path into a key of another one. -/
def GroupsApart (groups : List (List Key)) : Prop :=
  groups.Pairwise fun group other => ∀ key ∈ group, ∀ member ∈ other, key.Apart member

theorem GroupsApart.perm {first second : List (List Key)} (h : GroupsApart first)
    (hp : first.Perm second) :
    GroupsApart second :=
  (hp.pairwise_iff fun hd key hk member hm => (hd member hm key hk).symm).1 h

theorem flatMap_comm_perm {α β γ : Type} (f : α → β → List γ) (outer : List α) (inner : List β) :
    (outer.flatMap fun a => inner.flatMap (f a)).Perm (inner.flatMap fun b =>
      outer.flatMap (f · b)) := by
  induction outer with
  | nil => simp
  | cons a rest ih =>
    simp only [List.flatMap_cons]
    exact (ih.append_left _).trans (List.flatMap_append_perm inner (f a) _)

/-- **Loops over the rows of groups can change places.** -/
theorem fillings_perm (doc : Document) {first second : List (List Key)} (hp : first.Perm second)
    (ha : GroupsApart first) (base : Document) :
    (doc.fillings first base).Perm (doc.fillings second base) := by
  induction hp generalizing base with
  | nil => exact .refl _
  | cons group _ ih =>
    have hrest := (List.pairwise_cons.1 ha).2
    exact List.Perm.flatMap_left _ fun row _ => ih hrest _
  | swap group other groups =>
    have happart := (List.pairwise_cons.1 ha).1 group List.mem_cons_self
    -- the writes of two rows change places, and then the loops do
    have hcomm : ∀ row row' : Nat,
        (base.fill (Copying.rowAt doc other row)).fill (Copying.rowAt doc group row') =
          (base.fill (Copying.rowAt doc group row')).fill (Copying.rowAt doc other row) :=
            fun row row' =>
      Document.fill_comm (fun write hw member hm =>
        happart _ (Copying.mem_of_mem_rowAt hw) _ (Copying.mem_of_mem_rowAt hm)) base
    simp only [Document.fillings, hcomm]
    exact flatMap_comm_perm _ _ _
  | trans hfirst _ ih ih' => exact (ih ha base).trans (ih' (ha.perm hfirst) base)

/-! ## The documents of a walk -/

section Fits

variable {doc : Document} {groups : List (List Key)}

/-- Some groups, each with a key and with arrays of one length. -/
def Document.FitsEach (doc : Document) (groups : List (List Key)) : Prop :=
  ∀ group ∈ groups, group ≠ [] ∧ ∃ length, doc.HoldsArrays group length

theorem Document.rows_eq {group : List Key} {length : Nat} (hne : group ≠ [])
    (h : doc.HoldsArrays group length) :
    doc.rows group = length := by
  cases group with
  | nil => exact absurd rfl hne
  | cons key rest =>
    obtain ⟨items, hi, hl⟩ := h key List.mem_cons_self
    rw [rows, doc.columnAt_eq hi, hl]

theorem Document.FitsEach.fits (h : doc.FitsEach groups) :
    doc.Fits groups (groups.map doc.rows) := by
  rw [Fits, List.forall₂_map_right_iff, List.forall₂_same]
  intro group hg
  obtain ⟨hne, length, hl⟩ := h group hg
  rwa [rows_eq hne hl]

theorem fillings_eq_combinations (doc : Document) (groups : List (List Key)) (base : Document) :
    doc.fillings groups base =
      (combinations (groups.map doc.rows)).map fun rows => base.fill (choices doc groups rows) := by
  induction groups generalizing base with
  | nil => rfl
  | cons group groups ih =>
    rw [Document.fillings, List.map_cons, combinations, List.map_flatMap]
    refine congrArg (List.flatMap · _) (funext fun row => ?_)
    rw [ih, List.map_map]
    exact List.map_congr_left fun rows _ => by
      rw [Function.comp_apply, choices, Document.fill_append]

theorem groupsApart_of_fits (h : doc.FitsEach groups) (hd : groups.flatten.Nodup) :
    GroupsApart groups :=
  (List.pairwise_flatten.1 (h.fits.apart hd)).2

end Fits

/-- These documents are what a walk hands over to any sink that takes them all. -/
def Expansion.Emits (bindings : Bindings) (keys : List Key) (doc : Document)
    (docs : List Document) : Prop :=
  ∀ (σ : Type) (sink : Sink (StateM σ)), (∀ doc s, (sink doc s).1 = (.ok (), doc)) → ∀ s, ∃ after,
    expand sink.logged bindings keys doc (s, []) = ((.ok (), doc), (after, docs))

section Bindings

variable {bindings : Bindings} {doc : Document}

theorem fitsEach_of_holdsArrays {keys : List Key}
    (h : ∀ key ∈ keys, ∃ length, doc.HoldsArrays (bindings.find key) length) :
    doc.FitsEach (keys.map bindings.find) := by
  intro group hg
  obtain ⟨key, hk, rfl⟩ := List.mem_map.1 hg
  exact ⟨List.ne_nil_of_mem (bindings.mem_find_self key), h key hk⟩

theorem Bindings.Built.nodup_flatten_find (hb : bindings.Built) {keys : List Key}
    (hd : (keys.map bindings.find).Nodup) : (keys.map bindings.find).flatten.Nodup := by
  refine List.nodup_flatten.2 ⟨fun group hg =>
    ?_, hd.imp_of_mem fun {group other} hg ho hne key hk hm => hne ?_⟩
  · obtain ⟨key, -, rfl⟩ := List.mem_map.1 hg
    exact hb.nodup_find key
  · -- a key in two groups makes them one
    obtain ⟨driver, -, rfl⟩ := List.mem_map.1 hg
    obtain ⟨driver', -, rfl⟩ := List.mem_map.1 ho
    rw [← hb.find_eq_of_mem hk, ← hb.find_eq_of_mem hm]

/-- What a walk hands over is told by its groups alone. -/
theorem emits_fillings (hb : bindings.Built) {keys : List Key} (hd : (keys.map bindings.find).Nodup)
    (h : doc.FitsEach (keys.map bindings.find)) :
    Emits bindings keys doc (doc.fillings (keys.map bindings.find) doc) := by
  intro σ sink hs s
  have hback : sink.logged.Preserves := Sink.preserves_logged fun doc s => by rw [hs]
  have hwalk : expand sink.logged bindings keys doc (s, []) =
      ((fun outcome => (outcome, doc)) <$>
        untilFault sink.logged.outcome (doc.fillings (keys.map bindings.find) doc)) (s, []) := by
    rw [Copying.expand_eq_copying hb hback,
      copying_eq_combinations hb _ h.fits (hb.nodup_flatten_find hd), fillings_eq_combinations]
  refine ⟨(doc.fillings (keys.map bindings.find) doc).foldl (fun s leaf => (sink leaf s).2) s, ?_⟩
  rw [hwalk]
  show ((_, doc), _) = _
  rw [untilFault_logged hs, List.nil_append]

end Bindings

namespace Expansion

/-- **Keys that drive the same groups, each once, make the same documents**, in whatever order and
whichever members they are. So do the drivers that the reduction makes of any keys of these groups:
it can change the order of the documents and nothing else. -/
theorem same_documents_in_any_order {bindings : Bindings} (hb : bindings.Built)
    {first second : List Key} (hd : (first.map bindings.find).Nodup)
    (hp : (first.map bindings.find).Perm (second.map bindings.find)) {doc : Document}
    (ha : ∀ key ∈ first, ∃ length, doc.HoldsArrays (bindings.find key) length) :
    ∃ docs docs', Emits bindings first doc docs ∧ Emits bindings second doc docs' ∧
      docs.Perm docs' ∧
      ∀ wanted : List Key, wanted.Nodup →
        (∀ group, group ∈ wanted.map bindings.find ↔ group ∈ first.map bindings.find) →
        ∃ reduced, Emits bindings (bindings.drivers wanted) doc reduced ∧ docs.Perm reduced := by
  have hfit : doc.FitsEach (first.map bindings.find) := fitsEach_of_holdsArrays ha
  have happart := groupsApart_of_fits hfit (hb.nodup_flatten_find hd)
  have hany : ∀ keys : List Key, (first.map bindings.find).Perm (keys.map bindings.find) →
      ∃ docs, Emits bindings keys doc docs ∧
        (doc.fillings (first.map bindings.find) doc).Perm docs := fun keys hk =>
    ⟨_, emits_fillings hb (hk.nodup_iff.1 hd) (fun group hg => hfit group (hk.mem_iff.2 hg)),
      fillings_perm doc hk happart doc⟩
  obtain ⟨docs', hsecond, hperm⟩ := hany second hp
  refine ⟨_, docs', emits_fillings hb hd hfit, hsecond, hperm, fun wanted hw hg => hany _ ?_⟩
  exact (List.perm_ext_iff_of_nodup hd (bindings.nodup_find_drivers hw)).2 fun group =>
    ((hb.mem_find_drivers_iff hw group).trans (hg group)).symm

/-- A sink that takes every document. -/
def taking : Sink (StateM Unit) := fun doc s => ((.ok (), doc), s)

/-- Two names with their sizes, and two seeds. -/
def sizedNames : Document := ⟨[
  ("size", .list [.text "s", .text "l"]), ("name", .list [.text "a", .text "b"]),
  ("seed", .list [.text "x", .text "y"])]⟩

/-- Names and then seeds, or seeds and then sizes in the place of names: the names come in another
order. -/
theorem same_documents_of_sized_names :
    Bindings.Built ⟨[[⟨["name"]⟩, ⟨["size"]⟩]]⟩ ∧
      ([⟨["name"]⟩, ⟨["seed"]⟩].map (Bindings.find ⟨[[⟨["name"]⟩, ⟨["size"]⟩]]⟩)).Nodup ∧
      ([⟨["name"]⟩, ⟨["seed"]⟩].map (Bindings.find ⟨[[⟨["name"]⟩, ⟨["size"]⟩]]⟩)).Perm
        ([⟨["seed"]⟩, ⟨["size"]⟩].map (Bindings.find ⟨[[⟨["name"]⟩, ⟨["size"]⟩]]⟩)) ∧
      (∀ key ∈ [⟨["name"]⟩, ⟨["seed"]⟩], ∃ length,
        sizedNames.HoldsArrays (Bindings.find ⟨[[⟨["name"]⟩, ⟨["size"]⟩]]⟩ key) length) ∧
      ∃ docs docs' : List Document, docs.Perm docs' ∧
        docs.map (·.get ⟨["name"]⟩) =
          [.ok (.text "a"), .ok (.text "a"), .ok (.text "b"), .ok (.text "b")] ∧
        docs'.map (·.get ⟨["name"]⟩) =
          [.ok (.text "a"), .ok (.text "b"), .ok (.text "a"), .ok (.text "b")] := by
  have hb : Bindings.Built ⟨[[⟨["name"]⟩, ⟨["size"]⟩]]⟩ :=
    .ofGroups (show Bindings.ofGroups [[⟨["name"]⟩, ⟨["size"]⟩]] = .ok _ from rfl)
  have hd : ([⟨["name"]⟩, ⟨["seed"]⟩].map (Bindings.find ⟨[[⟨["name"]⟩, ⟨["size"]⟩]]⟩)).Nodup := by
    decide
  have hp : ([⟨["name"]⟩, ⟨["seed"]⟩].map (Bindings.find ⟨[[⟨["name"]⟩, ⟨["size"]⟩]]⟩)).Perm
      ([⟨["seed"]⟩, ⟨["size"]⟩].map (Bindings.find ⟨[[⟨["name"]⟩, ⟨["size"]⟩]]⟩)) := .swap _ _ []
  have ha : ∀ key ∈ [⟨["name"]⟩, ⟨["seed"]⟩], ∃ length,
      sizedNames.HoldsArrays (Bindings.find ⟨[[⟨["name"]⟩, ⟨["size"]⟩]]⟩ key) length := by
    intro key hk
    refine ⟨2, fun member hm => ?_⟩
    rcases List.mem_pair.1 hk with rfl | rfl
    · rcases List.mem_pair.1 hm with rfl | rfl <;> exact ⟨_, rfl, rfl⟩
    · obtain rfl := List.mem_singleton.1 hm
      exact ⟨_, rfl, rfl⟩
  obtain ⟨docs, docs', hfirst, hsecond, hperm, -⟩ := same_documents_in_any_order hb hd hp ha
  have hs : ∀ doc s, (taking doc s).1 = (.ok (), doc) := fun _ _ => rfl
  obtain ⟨_, hrun⟩ := hfirst Unit taking hs ()
  obtain ⟨_, hrun'⟩ := hsecond Unit taking hs ()
  cases hrun
  cases hrun'
  exact ⟨hb, hd, hp, ha, _, _, hperm, rfl, rfl⟩

end Expansion

end Sweep
