import Sweep.Proofs.Expansion.Combinations
import Sweep.Proofs.Expansion.Itinerary

/-!
# One level of a walk

What a walk does at a level depends on the shape of the arrays there. If the group of the key is out
of shape (`Misshapen`), the level has a fault and nothing is handed over. If it fits, the level
hands its rows to the levels below, each in a document of its own (`IsRow`), and the itinerary is
that of the rows one after the other.

So whatever is to be said about all leaves is said of one row: a leaf of a level is a leaf below one
of its rows (`mem_leaves_cons`), and a fault is that of some level that is out of shape
(`misshapen_of_ending`). On a row, a key of the group holds an element of its array, a key that
holds no table and is not in the group keeps what it holds, and a table stays a table.
-/

set_option autoImplicit false

namespace Sweep.Expansion

/-! ## A level that is out of shape -/

/-- A key that holds no array, and the fault that says so. -/
inductive Arrayless (doc : Document) (key : Key) : Fault → Prop where
  /-- the key is no place in the document -/
  | missing {fault : Fault} (h : doc.get key = .error fault) : Arrayless doc key fault
  /-- the key holds something else -/
  | other {held : Value} (h : doc.get key = .ok held) (hl : ∀ items, held ≠ .list items) :
    Arrayless doc key (.expectedArray key)

/-- A level that is out of shape, and the fault that says so: of the key itself, or else of the
first member of its group that holds no array or one of another length. -/
inductive Misshapen (bindings : Bindings) (doc : Document) (head : Key) : Fault → Prop where
  /-- the key itself holds no array -/
  | head {fault : Fault} (h : Arrayless doc head fault) : Misshapen bindings doc head fault
  /-- a member holds no array -/
  | member {front back : List Key} {key : Key} {length : Nat} {fault : Fault}
    (hm : bindings.others head = front ++ key :: back) (hf : doc.HoldsArrays (head :: front) length)
    (h : Arrayless doc key fault) : Misshapen bindings doc head fault
  /-- a member holds an array of another length -/
  | length {front back : List Key} {key : Key} {length : Nat} {items : List Value}
    (hm : bindings.others head = front ++ key :: back) (hf : doc.HoldsArrays (head :: front) length)
    (h : doc.get key = .ok (.list items)) (hne : items.length ≠ length) :
    Misshapen bindings doc head (.lengthMismatch head length key items.length)

section Level

variable (doc : Document) (head : Key)

theorem arrayLength_eq_ok_iff (key : Key) (length : Nat) :
    arrayLength doc key = .ok length ↔
      ∃ items, doc.get key = .ok (.list items) ∧ items.length = length := by
  rw [Copying.arrayLength_eq, Except.map_eq_ok_iff]
  simp only [Copying.array_eq_ok_iff]

theorem arrayLength_eq_error_iff (key : Key) (fault : Fault) :
    arrayLength doc key = .error fault ↔ Arrayless doc key fault := by
  rw [arrayLength]
  constructor
  · intro h
    split at h
    · exact absurd h (by simp)
    · next held hl hk =>
      cases h
      exact .other hk fun items he => hl items he
    · next other hk =>
      cases h
      exact .missing hk
  · intro h
    cases h with
    | missing h => rw [h]
    | @other held h hl =>
      rw [h]
      cases held with
      | list items => exact absurd rfl (hl items)
      | _ => rfl

/-- The fault of the first member that does not fit, the members before it holding arrays of the
same length. -/
theorem checkMembers_eq_error_iff (length : Nat) (members : List Key) (fault : Fault) :
    checkMembers doc head length members = .error fault ↔
      ∃ front key back, members = front ++ key :: back ∧ doc.HoldsArrays front length ∧
        (Arrayless doc key fault ∨
          ∃ items, doc.get key = .ok (.list items) ∧ items.length ≠ length ∧
          fault = .lengthMismatch head length key items.length) := by
  induction members with
  | nil => simp [checkMembers]
  | cons key rest ih =>
    rw [checkMembers]
    constructor
    · intro h
      cases hk : arrayLength doc key with
      | error other =>
        rw [hk] at h
        cases h
        exact ⟨[], key, rest, rfl, by simp [Document.HoldsArrays],
          .inl ((arrayLength_eq_error_iff doc key _).1 hk)⟩
      | ok measured =>
        obtain ⟨items, hi, rfl⟩ := (arrayLength_eq_ok_iff doc key measured).1 hk
        simp only [hk] at h
        split at h
        · next he =>
          obtain ⟨front, member, back, rfl, hf, hfault⟩ := ih.1 h
          exact ⟨key :: front, member, back, rfl,
            List.forall_mem_cons.2 ⟨⟨items, hi, he⟩, hf⟩, hfault⟩
        · next hne =>
          cases h
          exact ⟨[], key, rest, rfl, by simp [Document.HoldsArrays], .inr ⟨items, hi, hne, rfl⟩⟩
    · rintro ⟨front, member, back, hm, hf, hfault⟩
      cases front with
      | nil =>
        obtain ⟨rfl, rfl⟩ := List.cons.inj hm
        rcases hfault with ha | ⟨items, hi, hne, rfl⟩
        · rw [(arrayLength_eq_error_iff doc key fault).2 ha]
        · rw [(arrayLength_eq_ok_iff doc key _).2 ⟨items, hi, rfl⟩]
          exact if_neg hne
      | cons first front =>
        obtain ⟨rfl, rfl⟩ := List.cons.inj hm
        obtain ⟨hk, hf⟩ := List.forall_mem_cons.1 hf
        rw [(arrayLength_eq_ok_iff doc key length).2 hk]
        dsimp only
        rw [if_pos rfl]
        exact ih.2 ⟨front, member, back, rfl, hf, hfault⟩

/-- **The checks of a level fail exactly if it is out of shape.** -/
theorem groupLength_eq_error_iff (bindings : Bindings) (fault : Fault) :
    groupLength bindings doc head = .error fault ↔ Misshapen bindings doc head fault := by
  rw [groupLength]
  constructor
  · intro h
    cases hk : arrayLength doc head with
    | error other =>
      rw [hk] at h
      cases h
      exact .head ((arrayLength_eq_error_iff doc head _).1 hk)
    | ok length =>
      simp only [hk] at h
      cases hc : checkMembers doc head length (bindings.others head) with
      | ok done =>
        rw [hc] at h
        exact absurd h (by simp)
      | error other =>
        rw [hc] at h
        cases h
        obtain ⟨front, key, back, hm, hf, hfault⟩ :=
          (checkMembers_eq_error_iff doc head length _ _).1 hc
        have hall : doc.HoldsArrays (head :: front) length :=
          List.forall_mem_cons.2 ⟨(arrayLength_eq_ok_iff doc head length).1 hk, hf⟩
        rcases hfault with ha | ⟨items, hi, hne, rfl⟩
        · exact .member hm hall ha
        · exact .length hm hall hi hne
  · intro h
    cases h with
    | head h => rw [(arrayLength_eq_error_iff doc head fault).2 h]
    | @member front back key length _ hm hf h =>
      obtain ⟨hk, hf⟩ := List.forall_mem_cons.1 hf
      simp only [(arrayLength_eq_ok_iff doc head length).2 hk,
        (checkMembers_eq_error_iff doc head length _ fault).2 ⟨front, key, back, hm, hf, .inl h⟩]
    | @length front back key length items hm hf h hne =>
      obtain ⟨hk, hf⟩ := List.forall_mem_cons.1 hf
      simp only [(arrayLength_eq_ok_iff doc head length).2 hk,
        (checkMembers_eq_error_iff doc head length _ _).2 ⟨front, key, back, hm, hf,
          .inr ⟨items, h, hne, rfl⟩⟩]

end Level

/-! ## A level that fits -/

namespace Itinerary

variable {parts : List Itinerary}

theorem ending_join_of_ok (h : ∀ part ∈ parts, part.ending = .ok ()) :
    (join parts).ending = .ok () := by
  induction parts with
  | nil => rfl
  | cons first rest ih =>
    obtain ⟨hf, hr⟩ := List.forall_mem_cons.1 h
    obtain ⟨leaves, ending⟩ := first
    cases hf
    exact ih hr

theorem join_cons_of_error {first : Itinerary} {fault : Fault} (h : first.ending = .error fault) :
    join (first :: parts) = first := by
  obtain ⟨leaves, ending⟩ := first
  cases h
  rfl

theorem mem_leaves_join {leaf : Document} (h : leaf ∈ (join parts).leaves) :
    ∃ part ∈ parts, leaf ∈ part.leaves := by
  induction parts with
  | nil => exact absurd h (by simp [join])
  | cons first rest ih =>
    obtain ⟨leaves, ending⟩ := first
    cases ending with
    | error fault => exact ⟨_, List.mem_cons_self, h⟩
    | ok done =>
      rw [join, List.mem_append] at h
      rcases h with h | h
      · exact ⟨_, List.mem_cons_self, h⟩
      · obtain ⟨part, hp, hl⟩ := ih h
        exact ⟨part, List.mem_cons_of_mem _ hp, hl⟩

/-- Parts that are all gone through. -/
theorem leaves_join_of_ok (h : (join parts).ending = .ok ()) :
    (join parts).leaves = parts.flatMap leaves ∧ ∀ part ∈ parts, part.ending = .ok () := by
  induction parts with
  | nil => exact ⟨rfl, by simp⟩
  | cons first rest ih =>
    obtain ⟨leaves, ending⟩ := first
    cases ending with
    | error fault => exact absurd h (by simp [join])
    | ok done =>
      obtain ⟨hl, hr⟩ := ih h
      refine ⟨?_, List.forall_mem_cons.2 ⟨rfl, hr⟩⟩
      rw [join, List.flatMap_cons, ← hl]

theorem exists_of_ending_join {fault : Fault} (h : (join parts).ending = .error fault) :
    ∃ part ∈ parts, part.ending = .error fault := by
  induction parts with
  | nil => exact absurd h (by simp [join])
  | cons first rest ih =>
    obtain ⟨leaves, ending⟩ := first
    cases ending with
    | error other => exact ⟨_, List.mem_cons_self, h⟩
    | ok done =>
      obtain ⟨part, hp, he⟩ := ih h
      exact ⟨part, List.mem_cons_of_mem _ hp, he⟩

end Itinerary

/-- The document of a level on one of its rows. -/
structure IsRow (doc : Document) (keys : List Key) (row : Nat) (next : Document) : Prop where
  nodup : keys.Nodup
  inside : ∃ length, doc.HoldsArrays keys length ∧ row < length
  eq_fill : next = doc.fill (Copying.rowAt doc keys row)

/-- A level of an itinerary whose group fits: one part per row. -/
theorem itinerary_cons_of_fits {bindings : Bindings} (hb : bindings.Built) {head : Key}
    {doc : Document} {length : Nat} (h : doc.HoldsArrays (bindings.find head) length)
    (rest : List Key) :
    itinerary bindings (head :: rest) doc =
      .join ((List.range length).map fun row =>
        itinerary bindings rest (doc.fill (Copying.rowAt doc (bindings.find head) row))) := by
  have hg := (Copying.groupLength_eq_ok_iff bindings doc head length).2 h
  have ht := Copying.takeColumns_ok (h.apart (hb.nodup_find head)) h
  rw [itinerary, hg]
  simp only [ht]
  refine congrArg Itinerary.join (List.map_congr_left fun row hr => ?_)
  rw [Copying.rowWrites_eq_rowAt (took_of_ok ht) h (List.mem_range.1 hr)]

section IsRow

variable {doc next : Document} {keys : List Key} {row : Nat}

theorem IsRow.holds_array (h : IsRow doc keys row next) {key : Key} (hk : key ∈ keys) :
    ∃ items, doc.get key = .ok (.list items) := by
  obtain ⟨length, hall, -⟩ := h.inside
  exact (hall key hk).imp fun _ hi => hi.1

theorem IsRow.keys_rowAt (h : IsRow doc keys row next) :
    (Copying.rowAt doc keys row).map Prod.fst = keys := by
  obtain ⟨length, hall, hr⟩ := h.inside
  exact Copying.keys_rowAt hall hr

/-- **A key of the group holds the element of its array.** -/
theorem IsRow.takesRow (h : IsRow doc keys row next) : doc.TakesRow next keys row := by
  obtain ⟨length, hall, hr⟩ := h.inside
  intro key hk
  obtain ⟨items, hi, rfl⟩ := hall key hk
  refine ⟨items, items[row], hi, List.getElem?_eq_getElem hr, ?_⟩
  have hp : ((Copying.rowAt doc keys row).map Prod.fst).Pairwise Key.Apart := by
    rw [h.keys_rowAt]
    exact hall.apart h.nodup
  rw [h.eq_fill]
  refine Document.get_fill_of_mem hp ?_ hi
  rw [Copying.rowAt_eq_map hall hr]
  refine List.mem_map.2 ⟨key, hk, ?_⟩
  rw [doc.columnAt_eq hi, List.getElem?_eq_getElem hr, Option.getD_some]

theorem IsRow.get_of_apart (h : IsRow doc keys row next) {key : Key}
    (ha : ∀ member ∈ keys, member.Apart key) :
    next.get key = doc.get key := by
  rw [h.eq_fill]
  refine Document.get_fill_of_apart (fun write hw => ha write.1 ?_) doc
  rw [← h.keys_rowAt]
  exact List.mem_map_of_mem hw

/-- **Another key that holds no table keeps what it holds.** -/
theorem IsRow.get_of_notMem (h : IsRow doc keys row next) {key : Key} {held : Value}
    (hg : doc.get key = .ok held) (hl : held.IsLeaf) (hk : key ∉ keys) :
    next.get key = .ok held := by
  rw [h.get_of_apart fun member hm => ?_, hg]
  obtain ⟨items, hi⟩ := h.holds_array hm
  exact Document.apart_of_get hi (by simp [Value.IsLeaf]) hg hl fun he => hk (he ▸ hm)

theorem IsRow.arrayLength (h : IsRow doc keys row next) {key : Key} (hk : key ∉ keys) {size : Nat}
    (ha : arrayLength doc key = .ok size) : Expansion.arrayLength next key = .ok size := by
  obtain ⟨items, hi, hl⟩ := (arrayLength_eq_ok_iff doc key size).1 ha
  exact (arrayLength_eq_ok_iff next key size).2 ⟨items,
    h.get_of_notMem hi (by simp [Value.IsLeaf]) hk, hl⟩

/-- **A table stays a table.** -/
theorem IsRow.table (h : IsRow doc keys row next) {key : Key} {inner : List (String × Value)}
    (hg : doc.get key = .ok (.table inner)) : ∃ changed, next.get key = .ok (.table changed) := by
  rw [h.eq_fill]
  refine Document.table_of_get_fill (fun write hw => ?_) hg
  have hm := List.mem_map_of_mem (f := Prod.fst) hw
  rw [h.keys_rowAt] at hm
  obtain ⟨items, hi⟩ := h.holds_array hm
  refine Document.not_prefix_of_get hi (by simp [Value.IsLeaf]) hg ?_
  -- the key written at holds an array, this one a table
  rintro rfl
  rw [hg] at hi
  exact absurd hi (by simp)

end IsRow

section Rows

variable {bindings : Bindings} {head : Key} {rest : List Key} {doc : Document}

/-- A level is out of shape, or it has one part per row. -/
theorem itinerary_cons_cases (hb : bindings.Built) (head : Key) (rest : List Key) (doc : Document) :
    (∃ fault, Misshapen bindings doc head fault ∧
      itinerary bindings (head :: rest) doc = ⟨[], .error fault⟩) ∨
      ∃ parts, doc.HoldsArrays (bindings.find head) parts.length ∧
        itinerary bindings (head :: rest) doc = .join parts ∧
        ∀ part ∈ parts, ∃ row next, IsRow doc (bindings.find head) row next ∧
          part = itinerary bindings rest next := by
  cases hg : groupLength bindings doc head with
  | error fault =>
    left
    refine ⟨fault, (groupLength_eq_error_iff doc head bindings fault).1 hg, ?_⟩
    rw [itinerary, hg]
  | ok length =>
    have hfits := (Copying.groupLength_eq_ok_iff bindings doc head length).1 hg
    right
    refine ⟨_, ?_, itinerary_cons_of_fits hb hfits rest, fun part hp => ?_⟩
    · rw [List.length_map, List.length_range]
      exact hfits
    obtain ⟨row, hr, rfl⟩ := List.mem_map.1 hp
    exact ⟨row, _, ⟨hb.nodup_find head, ⟨length, hfits, List.mem_range.1 hr⟩, rfl⟩, rfl⟩

/-- **A leaf of a level is a leaf below one of its rows.** -/
theorem mem_leaves_cons (hb : bindings.Built) {leaf : Document}
    (h : leaf ∈ (itinerary bindings (head :: rest) doc).leaves) :
    ∃ row next, IsRow doc (bindings.find head) row next ∧
      leaf ∈ (itinerary bindings rest next).leaves := by
  rcases itinerary_cons_cases hb head rest doc with ⟨fault, -, hway⟩ | ⟨parts, -, hway, hparts⟩
  · rw [hway] at h
    exact absurd h (by simp)
  · rw [hway] at h
    obtain ⟨part, hp, hl⟩ := Itinerary.mem_leaves_join h
    obtain ⟨row, next, hrow, rfl⟩ := hparts part hp
    exact ⟨row, next, hrow, hl⟩

/-- What every row keeps holds of all leaves. -/
theorem leaves_induction (hb : bindings.Built) {P : Document → Prop}
    (hrow : ∀ head row doc next, IsRow doc (bindings.find head) row next → P doc → P next)
    {keys : List Key} (h : P doc) {leaf : Document}
    (hl : leaf ∈ (itinerary bindings keys doc).leaves) : P leaf := by
  induction keys generalizing doc with
  | nil =>
    rw [itinerary, List.mem_singleton] at hl
    rw [hl]
    exact h
  | cons head rest ih =>
    obtain ⟨row, next, hr, hl⟩ := mem_leaves_cons hb hl
    exact ih (hrow head row doc next hr h) hl

/-- **A fault of the walk is that of a level that is out of shape.** -/
theorem misshapen_of_ending (hb : bindings.Built) {keys : List Key} {fault : Fault}
    (h : (itinerary bindings keys doc).ending = .error fault) :
    ∃ reached head, Misshapen bindings reached head fault := by
  induction keys generalizing doc with
  | nil => exact absurd h (by simp [itinerary])
  | cons head rest ih =>
    rcases itinerary_cons_cases hb head rest doc with ⟨other, hm, hway⟩ | ⟨parts, -, hway, hparts⟩
    · rw [hway] at h
      cases h
      exact ⟨doc, head, hm⟩
    · rw [hway] at h
      obtain ⟨part, hp, he⟩ := Itinerary.exists_of_ending_join h
      obtain ⟨row, next, -, rfl⟩ := hparts part hp
      exact ih he

/-- **A walk without a fault has as many leaves as there are combinations of elements of the driving
arrays**, if these are all in the document to begin with. -/
theorem length_leaves (hb : bindings.Built) {keys : List Key}
    (hd : (keys.flatMap bindings.find).Nodup) {sizes : List Nat}
    (hs : List.Forall₂ (fun key size => arrayLength doc key = .ok size) keys sizes)
    (hok : (itinerary bindings keys doc).ending = .ok ()) :
    (itinerary bindings keys doc).leaves.length = sizes.prod := by
  induction keys generalizing doc sizes with
  | nil =>
    cases hs
    rfl
  | cons head rest ih =>
    rw [List.flatMap_cons, List.nodup_append'] at hd
    obtain ⟨-, hrest, hcross⟩ := hd
    cases hs with
    | @cons _ size _ sizes hsize hs =>
      rcases itinerary_cons_cases hb head rest doc with
        ⟨fault, -, hway⟩ | ⟨parts, hfits, hway, hparts⟩
      · rw [hway] at hok
        exact absurd hok (by simp)
      · rw [hway] at hok ⊢
        obtain ⟨hleaves, hendings⟩ := Itinerary.leaves_join_of_ok hok
        have hlength : parts.length = size := by
          obtain ⟨items, hi, hl⟩ := hfits head (bindings.mem_find_self head)
          rw [← hl]
          exact Except.ok.inj
            (((arrayLength_eq_ok_iff doc head _).2 ⟨items, hi, rfl⟩).symm.trans hsize)
        -- the other driving arrays are the same on every row
        have hpart : ∀ part ∈ parts, part.leaves.length = sizes.prod := by
          intro part hp
          obtain ⟨row, next, hrow, rfl⟩ := hparts part hp
          have hother : ∀ key ∈ rest, key ∉ bindings.find head := fun key hk hm =>
            hcross hm (List.mem_flatMap.2 ⟨key, hk, bindings.mem_find_self key⟩)
          have hsame := ((List.forall₂_and_left rest sizes).2 ⟨hother, hs⟩).imp fun key size hk =>
            hrow.arrayLength hk.1 hk.2
          exact ih hrest hsame (hendings _ hp)
        rw [hleaves, List.length_flatMap, List.map_congr_left hpart, List.map_const',
          List.sum_replicate_nat, List.prod_cons, hlength]

end Rows

end Sweep.Expansion
