import Sweep.Proofs.Bindings.Groups
import Sweep.Proofs.Except
import Sweep.Proofs.Expansion.Restoring

/-!
# The walk over copies

The same expansion without a shared document: `Copying.expand` looks the arrays of a group up, and
goes on with one fresh copy of the document per row. Nothing is taken out, nothing is put back, and
the only faults there are come from looking arrays up and from the visits.

> `expand_eq_copying`: the walk in place is the walk over copies, with the document handed back
> unchanged.

It holds in every lawful monad, so of everything that a sink may do with the documents it is handed.
What has to be known of the bindings is that a group names no key twice: then a group whose arrays
pass the length checks can always be taken out, and no step of the walk in place has a fault of its
own.
-/

set_option autoImplicit false

namespace Sweep

open Expansion

variable {m : Type → Type} [Monad m]

/-! ## Keys that hold arrays -/

/-- Every one of some keys holds an array of one length. -/
def Document.HoldsArrays (doc : Document) (keys : List Key) (length : Nat) : Prop :=
  ∀ key ∈ keys, ∃ items, doc.get key = .ok (.list items) ∧ items.length = length

/-- The column at a key, empty where no array is. -/
def Document.columnAt (doc : Document) (key : Key) : Expansion.Column :=
  ⟨key, match doc.get key with
    | .ok (.list items) => items
    | _ => []⟩

theorem Document.columnAt_eq {doc : Document} {key : Key} {items : List Value}
    (h : doc.get key = .ok (.list items)) : doc.columnAt key = ⟨key, items⟩ := by
  rw [columnAt, h]

theorem Document.apart_of_arrays {doc : Document} {keys : List Key}
    (h : ∀ key ∈ keys, ∃ items, doc.get key = .ok (.list items)) (hd : keys.Nodup) :
    keys.Pairwise Key.Apart := by
  refine List.Pairwise.imp_of_mem (fun {key other} hk ho hne => ?_) hd
  obtain ⟨items, hi⟩ := h key hk
  obtain ⟨others, hj⟩ := h other ho
  exact apart_of_get hi (by simp [Value.IsLeaf]) hj (by simp [Value.IsLeaf]) hne

theorem Document.HoldsArrays.apart {doc : Document} {keys : List Key} {length : Nat}
    (h : doc.HoldsArrays keys length) (hd : keys.Nodup) : keys.Pairwise Key.Apart :=
  apart_of_arrays (fun key hk => (h key hk).imp fun _ hi => hi.1) hd

namespace Copying

/-- The array at a key. -/
def array (doc : Document) (key : Key) : Except Fault (List Value) :=
  match doc.get key with
  | .ok (.list items) => .ok items
  | .ok _ => .error (.expectedArray key)
  | .error fault => .error fault

/-- The column of a key that is bound to `head`; its array must be as long as that of `head`. -/
def member (doc : Document) (head : Key) (length : Nat) (key : Key) : Except Fault Column :=
  match array doc key with
  | .error fault => .error fault
  | .ok items =>
    if items.length = length then .ok ⟨key, items⟩
    else .error (.lengthMismatch head length key items.length)

/-- The elements of a row, each with the key of its column. -/
def rowOf (columns : List Column) (row : Nat) : List (Key × Value) :=
  columns.filterMap fun column => column.items[row]?.map (column.key, ·)

/-- Visit every combination of the arrays at the keys, each as a document of its own. -/
def expand (visit : Document → m Outcome) (bindings : Bindings) : List Key → Document → m Outcome
  | [], doc => visit doc
  | head :: rest, doc =>
    match array doc head with
    | .error fault => pure (.error fault)
    | .ok items =>
      match (bindings.others head).mapM (member doc head items.length) with
      | .error fault => pure (.error fault)
      | .ok others =>
        untilFault
          (fun row => expand visit bindings rest (doc.fill (rowOf (⟨head, items⟩ :: others) row)))
          (List.range items.length)

/-! ## What the checks establish -/

theorem array_eq_ok_iff (doc : Document) (key : Key) (items : List Value) :
    array doc key = .ok items ↔ doc.get key = .ok (.list items) := by
  rw [array]
  split <;> simp_all

theorem member_eq_ok_iff (doc : Document) (head : Key) (length : Nat) (key : Key)
    (column : Column) :
    member doc head length key = .ok column ↔
      (∃ items, doc.get key = .ok (.list items) ∧ items.length = length) ∧
      column = doc.columnAt key := by
  rw [member]
  cases ha : array doc key with
  | error fault =>
    simp only [reduceCtorEq, false_iff, not_and]
    rintro ⟨items, hi, -⟩
    rw [(array_eq_ok_iff doc key items).2 hi] at ha
    exact absurd ha (by simp)
  | ok items =>
    have hi := (array_eq_ok_iff doc key items).1 ha
    simp only [hi, doc.columnAt_eq hi]
    split <;> simp_all [eq_comm]

theorem mapM_member_eq_ok_iff (doc : Document) (head : Key) (length : Nat) (members : List Key)
    (columns : List Column) :
    members.mapM (member doc head length) = .ok columns ↔
      doc.HoldsArrays members length ∧ columns = members.map doc.columnAt := by
  induction members generalizing columns with
  | nil => simp [Document.HoldsArrays, pure, Except.pure, eq_comm]
  | cons key rest ih =>
    rw [List.mapM_cons]
    constructor
    · intro h
      obtain ⟨column, hm, h⟩ := Except.bind_eq_ok_iff.1 h
      obtain ⟨more, hr, h⟩ := Except.bind_eq_ok_iff.1 h
      cases h
      obtain ⟨hk, rfl⟩ := (member_eq_ok_iff doc head length key column).1 hm
      obtain ⟨hrest, rfl⟩ := (ih more).1 hr
      exact ⟨List.forall_mem_cons.2 ⟨hk, hrest⟩, rfl⟩
    · rintro ⟨h, rfl⟩
      obtain ⟨hk, hrest⟩ := List.forall_mem_cons.1 h
      rw [(member_eq_ok_iff doc head length key _).2 ⟨hk, rfl⟩, (ih _).2 ⟨hrest, rfl⟩]
      rfl

theorem arrayLength_eq (doc : Document) (key : Key) :
    arrayLength doc key = (array doc key).map List.length := by
  rw [arrayLength, array]
  cases doc.get key with
  | error fault => rfl
  | ok value => cases value <;> rfl

theorem checkMembers_eq (doc : Document) (head : Key) (length : Nat) (members : List Key) :
    checkMembers doc head length members =
      (members.mapM (member doc head length)).map (fun _ => ()) := by
  induction members with
  | nil => rfl
  | cons key rest ih =>
    rw [checkMembers, arrayLength_eq, List.mapM_cons, member]
    cases array doc key with
    | error fault => rfl
    | ok items =>
      simp only [Except.map]
      split
      · rw [ih]
        cases rest.mapM (member doc head length) <;> rfl
      · rfl

/-- The walk in place makes the checks of the walk over copies, in the same order. -/
theorem groupLength_eq (bindings : Bindings) (doc : Document) (head : Key) :
    groupLength bindings doc head =
      match array doc head with
      | .error fault => .error fault
      | .ok items =>
        ((bindings.others head).mapM (member doc head items.length)).map (fun _ =>
          items.length) := by
  rw [groupLength, arrayLength_eq]
  cases array doc head with
  | error fault => rfl
  | ok items =>
    simp only [Except.map, checkMembers_eq]
    cases (bindings.others head).mapM (member doc head items.length) <;> rfl

/-- **A group passes the checks exactly if all its keys hold arrays of one length.** -/
theorem groupLength_eq_ok_iff (bindings : Bindings) (doc : Document) (head : Key) (length : Nat) :
    groupLength bindings doc head = .ok length ↔ doc.HoldsArrays (bindings.find head) length := by
  rw [groupLength_eq]
  constructor
  · intro h
    cases ha : array doc head with
    | error fault =>
      rw [ha] at h
      exact absurd h (by simp)
    | ok items =>
      cases hm : (bindings.others head).mapM (member doc head items.length) with
      | error fault =>
        simp only [ha, hm, Except.map] at h
        exact absurd h (by simp)
      | ok columns =>
        simp only [ha, hm, Except.map, Except.ok.injEq] at h
        subst h
        obtain ⟨ho, -⟩ := (mapM_member_eq_ok_iff doc head _ _ _).1 hm
        -- the members that are checked are all but `head`, whose array was measured before
        intro key hk
        by_cases he : key = head
        · exact ⟨items, by rw [he]; exact (array_eq_ok_iff doc head items).1 ha, rfl⟩
        · exact ho key ((bindings.mem_others_iff head key).2 ⟨hk, he⟩)
  · intro h
    obtain ⟨items, hi, rfl⟩ := h head (bindings.mem_find_self head)
    have ho : doc.HoldsArrays (bindings.others head) items.length := fun key hk =>
      h key ((bindings.mem_others_iff head key).1 hk).1
    simp only [(array_eq_ok_iff doc head items).2 hi,
      (mapM_member_eq_ok_iff doc head _ _ _).2 ⟨ho, rfl⟩]
    rfl

/-! ## One level -/

/-- The elements of a row of the arrays at some keys. -/
def rowAt (doc : Document) (keys : List Key) (row : Nat) : List (Key × Value) :=
  rowOf (keys.map doc.columnAt) row

theorem rowAt_eq_map {doc : Document} {keys : List Key} {length row : Nat}
    (h : doc.HoldsArrays keys length) (hr : row < length) :
    rowAt doc keys row = keys.map fun key => (key, (doc.columnAt key).items[row]?.getD .null) := by
  rw [rowAt, rowOf, List.filterMap_map, ← List.filterMap_eq_map]
  refine List.filterMap_congr fun key hk => ?_
  obtain ⟨items, hi, rfl⟩ := h key hk
  simp only [Function.comp_apply, doc.columnAt_eq hi, List.getElem?_eq_getElem hr]
  rfl

theorem keys_rowAt {doc : Document} {keys : List Key} {length row : Nat}
    (h : doc.HoldsArrays keys length) (hr : row < length) :
    (rowAt doc keys row).map Prod.fst = keys := by
  rw [rowAt_eq_map h hr, List.map_map]
  exact List.map_id keys

theorem fill_rowAt_perm {doc : Document} {keys others : List Key} {length row : Nat}
    (hp : keys.Perm others) (h : doc.HoldsArrays keys length) (hd : keys.Nodup)
    (hr : row < length) :
    doc.fill (rowAt doc keys row) = doc.fill (rowAt doc others row) := by
  have hk : ((rowAt doc keys row).map Prod.fst).Pairwise Key.Apart := by
    rw [keys_rowAt h hr]
    exact h.apart hd
  exact Document.fill_perm ((hp.map _).filterMap _) hk doc

/-- One level of the walk over copies, told by the group of its key. -/
theorem expand_cons {bindings : Bindings} (hb : bindings.Built) (visit : Document → m Outcome)
    (head : Key) (rest : List Key) (doc : Document) :
    expand visit bindings (head :: rest) doc =
      match groupLength bindings doc head with
      | .error fault => pure (.error fault)
      | .ok length =>
        untilFault (fun row =>
          expand visit bindings rest (doc.fill (rowAt doc (bindings.find head) row)))
          (List.range length) := by
  have hg := groupLength_eq bindings doc head
  rw [expand]
  cases ha : array doc head with
  | error fault =>
    rw [ha] at hg
    rw [hg]
  | ok items =>
    cases hm : (bindings.others head).mapM (member doc head items.length) with
    | error fault =>
      simp only [ha, hm, Except.map] at hg
      simp only [hg, hm]
    | ok others =>
      simp only [ha, hm, Except.map] at hg
      simp only [hg, hm]
      have hall := (groupLength_eq_ok_iff bindings doc head _).1 hg
      obtain ⟨-, rfl⟩ := (mapM_member_eq_ok_iff doc head _ _ _).1 hm
      refine untilFault_congr fun row hr => ?_
      -- the copies write at `head` first, the group has it in its own place
      have hp := hb.cons_others_perm head
      have hself := fill_rowAt_perm hp.symm hall (hb.nodup_find head) (List.mem_range.1 hr)
      rw [hself, rowAt, List.map_cons, doc.columnAt_eq ((array_eq_ok_iff doc head items).1 ha)]

/-! ## The walk in place -/

theorem takeColumns_ok {keys : List Key} {doc : Document} {length : Nat}
    (hp : keys.Pairwise Key.Apart) (h : doc.HoldsArrays keys length) :
    (takeColumns keys doc).outcome = .ok () := by
  induction keys generalizing doc with
  | nil => rfl
  | cons key rest ih =>
    rw [List.pairwise_cons] at hp
    obtain ⟨⟨items, hi, -⟩, hrest⟩ := List.forall_mem_cons.1 h
    rw [takeColumns, Document.replace_of_get hi]
    -- the null at `key` is not seen from the other keys
    refine ih hp.2 fun other ho => ?_
    rw [Document.get_put_of_apart (hp.1 other ho)]
    exact hrest other ho

theorem rowWrites_eq_rowAt {doc : Document} {keys : List Key} {columns : List Column}
    {document : Document} (ht : Took doc keys columns document) {length row : Nat}
    (h : doc.HoldsArrays keys length) (hr : row < length) :
    rowWrites row columns = rowAt doc keys row := by
  rw [rowAt_eq_map h hr, rowWrites, ← ht.keys_eq, List.map_map]
  refine List.map_congr_left fun column hc => ?_
  simp only [Function.comp_apply, doc.columnAt_eq (ht.held column hc)]

/-- **The walk in place is the walk over copies**, whatever the sink does, as long as it hands its
documents back. -/
theorem expand_eq_copying [LawfulMonad m] {bindings : Bindings} (hb : bindings.Built)
    {sink : Sink m} (hs : sink.Preserves) (keys : List Key) (doc : Document) :
    Expansion.expand sink bindings keys doc =
      (fun outcome => (outcome, doc)) <$> expand sink.outcome bindings keys doc := by
  induction keys generalizing doc with
  | nil => exact hs doc
  | cons head rest ih =>
    rw [Expansion.expand, expand_cons hb]
    cases hg : groupLength bindings doc head with
    | error fault => rw [map_pure]
    | ok length =>
      have hall := (groupLength_eq_ok_iff bindings doc head length).1 hg
      have ht := takeColumns_ok (hall.apart (hb.nodup_find head)) hall
      simp only
      rw [withColumns_eq (preserves_expand hs bindings rest) length ht]
      refine congrArg _ (untilFault_congr fun row hr => ?_)
      rw [Sink.outcome_eq (ih _), rowWrites_eq_rowAt (took_of_ok ht) hall (List.mem_range.1 hr)]

end Copying

/-- A sink that also writes down every document it is handed. -/
def Sink.logged {σ : Type} (sink : Sink (StateM σ)) :
    Sink (StateM (σ × List Document)) := fun doc past =>
  let (result, s) := sink doc past.1
  (result, (s, past.2 ++ [doc]))

theorem Sink.preserves_logged {σ : Type} {sink : Sink (StateM σ)}
    (hs : ∀ doc s, (sink doc s).1.2 = doc) :
    sink.logged.Preserves := (Sink.preserves_iff _).2 fun doc past => hs doc past.1

/-- **The walk in place does what the walk over copies does**: the sink is handed the same documents
in the same order and ends in the same state, the first fault is the same, and the document comes
back as it was. -/
theorem walk_in_place_eq_walk_over_copies {σ : Type} {bindings : Bindings} (hb : bindings.Built)
    {sink : Sink (StateM σ)} (hs : ∀ doc s, (sink doc s).1.2 = doc) (keys : List Key)
    (doc : Document) (s : σ) :
    Expansion.expand sink.logged bindings keys doc (s, []) =
      let (outcome, past) := Copying.expand sink.logged.outcome bindings keys doc (s, [])
      ((outcome, doc), past) := by
  rw [Copying.expand_eq_copying hb (Sink.preserves_logged hs)]
  rfl

/-- The second run has no sizes: both walks have handed over the documents of the first run by
then. -/
theorem walk_over_copies_of_twoRuns :
    Bindings.Built ⟨[[⟨["runs"]⟩, ⟨["names"]⟩]]⟩ ∧ (∀ doc left, (countdown doc left).1.2 = doc) ∧
      Expansion.expand countdown.logged ⟨[[⟨["runs"]⟩, ⟨["names"]⟩]]⟩
        [⟨["runs"]⟩, ⟨["runs", "sizes"]⟩] twoRuns (7, []) =
        ((.error (.expectedArray ⟨["runs", "sizes"]⟩), twoRuns), (5, [
          ⟨[("runs", .table [("sizes", .text "s")]), ("names", .text "x")]⟩,
          ⟨[("runs", .table [("sizes", .text "m")]), ("names", .text "x")]⟩])) := by
  have hb : Bindings.Built ⟨[[⟨["runs"]⟩, ⟨["names"]⟩]]⟩ :=
    .ofGroups (show Bindings.ofGroups [[⟨["runs"]⟩, ⟨["names"]⟩]] = .ok _ from rfl)
  have hs : ∀ doc left, (countdown doc left).1.2 = doc := fun _ left => by cases left <;> rfl
  exact ⟨hb, hs, walk_in_place_eq_walk_over_copies hb hs _ twoRuns 7⟩

end Sweep
