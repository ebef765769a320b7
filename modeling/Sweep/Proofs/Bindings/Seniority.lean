import Mathlib.Data.List.DropRight
import Sweep.Proofs.Bindings.Drivers

/-!
# Which member drives a group

The first driver of a list is its first key, and in a list from which nothing is taken out every key
drives itself. In between, a key that is taken out leaves a gap that the last key fills, and so a
member of another group can overtake the first one of its group: of the groups `a`, `b` and `c`,
`d`, the list `a b c d` loses `b` to `a`, has `d` in the place of `b`, and loses `c` to `d`
(`overtaken_member`).

How far this goes: with every key that is taken out, one key at the end moves (`ClosedUp`). So a
group has its first member for a driver, or else

* a group that begins in front of it has a second key in the list, and
* its driver is among the last keys of the list, as many as keys of other groups are taken out
  (`driver_first_or_late`).
-/

set_option autoImplicit false

namespace Sweep.Bindings

/-! ## Closing up -/

theorem rtake_subset_rtake {n m : Nat} (h : n ≤ m) (keys : List Key) :
    keys.rtake n ⊆ keys.rtake m := by
  unfold List.rtake
  exact List.drop_subset_drop_left keys (by omega)

theorem rtake_subset_cons (n : Nat) (key : Key) (keys : List Key) :
    keys.rtake n ⊆ (key :: keys).rtake n := by
  unfold List.rtake
  rw [← List.drop_succ_cons (a := key)]
  apply List.drop_subset_drop_left
  simp only [List.length_cons]
  omega

/-- Some members are taken out and the gaps are closed from the end: what is at the end now was
among the last keys before, and the first key of a kind that loses no key is the first one still, or
was among the last keys. -/
structure ClosedUp (members : List Key) (taken : Nat) (keys rest : List Key) : Prop where
  length : rest.length + taken = keys.length
  late : ∀ n, rest.rtake n ⊆ keys.rtake (n + taken)
  first : ∀ kind : Key → Bool, (∀ member ∈ members, kind member = false) →
    ∀ first, rest.find? kind = some first → keys.find? kind = some first ∨ first ∈ keys.rtake taken

theorem ClosedUp.refl (members keys : List Key) : ClosedUp members 0 keys keys where
  length := rfl
  late := fun _ => List.Subset.refl _
  first := fun _ _ _ h => .inl h

theorem ClosedUp.trans {members others keys between rest : List Key} {n m : Nat}
    (h₁ : ClosedUp members n keys between) (h₂ : ClosedUp others m between rest) :
    ClosedUp (members ++ others) (m + n) keys rest where
  length := by rw [← h₁.length, ← h₂.length, Nat.add_assoc]
  late := by
    intro k
    rw [← Nat.add_assoc]
    exact List.Subset.trans (h₂.late k) (h₁.late (k + m))
  first := by
    intro kind hkind first hfirst
    rw [List.forall_mem_append] at hkind
    rcases h₂.first kind hkind.2 first hfirst with hfound | hlate
    · rcases h₁.first kind hkind.1 first hfound with hin | hlate
      · exact .inl hin
      · exact .inr (rtake_subset_rtake (Nat.le_add_left n m) keys hlate)
    · exact .inr (h₁.late m hlate)

/-- The last key is taken out. -/
theorem closedUp_last (before : List Key) (key : Key) :
    ClosedUp [key] 1 (before ++ [key]) before where
  length := by simp
  late := by
    intro n
    rw [List.rtake_concat_succ]
    exact List.subset_append_left _ _
  first := by
    intro kind _ first hfirst
    left
    rw [List.find?_append, hfirst]
    rfl

/-- A key is taken out and the last one moves into the gap. -/
theorem closedUp_gap (before between : List Key) (key last : Key) :
    ClosedUp [key] 1 (before ++ key :: between ++ [last]) (before ++ last :: between) where
  length := by simp [Nat.add_assoc]
  late := by
    intro n other ho
    rw [List.rtake_concat_succ, List.mem_append, List.mem_singleton]
    unfold List.rtake at ho ⊢
    rw [List.drop_append, List.mem_append, List.length_append, List.length_cons] at ho
    rw [List.drop_append, List.mem_append, List.length_append, List.length_cons]
    rcases ho with hb | hl
    · exact .inl (.inl hb)
    · -- the moved key counts as the last one, and behind it both lists are the same
      cases hk : before.length + (between.length + 1) - n - before.length with
      | zero =>
        rw [hk, List.drop_zero] at hl
        rw [List.drop_zero]
        rcases List.mem_cons.1 hl with rfl | hm
        · exact .inr rfl
        · exact .inl (.inr (List.mem_cons_of_mem _ hm))
      | succ k =>
        rw [hk, List.drop_succ_cons] at hl
        rw [List.drop_succ_cons]
        exact .inl (.inr hl)
  first := by
    intro kind hkind first hfirst
    have hkey : kind key = false := hkind key (List.mem_singleton_self key)
    rw [show 1 = 0 + 1 from rfl, List.rtake_concat_succ, List.rtake_zero, List.nil_append,
      List.mem_singleton]
    rw [List.find?_append, List.find?_append, List.find?_cons_of_neg (by simp [hkey])]
    rw [List.find?_append] at hfirst
    cases hb : before.find? kind with
    | some found =>
      rw [hb] at hfirst
      exact .inl hfirst
    | none =>
      rw [hb, Option.none_or] at hfirst
      by_cases hl : kind last = true
      · rw [List.find?_cons_of_pos hl] at hfirst
        exact .inr (Option.some.inj hfirst).symm
      · rw [List.find?_cons_of_neg hl] at hfirst
        rw [hfirst]
        exact .inl rfl

theorem takeOut_append {key : Key} {before : List Key} (h : key ∉ before) (keys : List Key) :
    takeOut key (before ++ keys) = before ++ takeOut key keys := by
  induction before with
  | nil => rfl
  | cons other rest ih =>
    rw [List.mem_cons, not_or] at h
    rw [List.cons_append, takeOut, if_neg (Ne.symm h.1), ih h.2, List.cons_append]

theorem closedUp_takeOut (key : Key) (keys : List Key) :
    ∃ taken, ClosedUp [key] taken keys (takeOut key keys) := by
  by_cases hk : key ∈ keys
  · obtain ⟨before, rest, rfl, hb⟩ := List.eq_append_cons_of_mem hk
    refine ⟨1, ?_⟩
    rw [takeOut_append hb]
    rcases List.eq_nil_or_concat rest with rfl | ⟨between, last, rfl⟩
    · have hgone : takeOut key [key] = [] := by simp [takeOut]
      rw [hgone, List.append_nil]
      exact closedUp_last before key
    · have hgap : takeOut key (key :: (between ++ [last])) = last :: between := by simp [takeOut]
      have h := closedUp_gap before between key last
      rw [List.append_assoc, List.cons_append] at h
      rw [List.concat_eq_append, hgap]
      exact h
  · rw [takeOut_eq_self hk]
    exact ⟨0, .refl _ _⟩

theorem closedUp_takeOutAll (members keys : List Key) :
    ∃ taken, ClosedUp members taken keys (takeOutAll members keys) := by
  induction members generalizing keys with
  | nil => exact ⟨0, .refl _ _⟩
  | cons member rest ih =>
    obtain ⟨n, hfirst⟩ := closedUp_takeOut member keys
    obtain ⟨m, hrest⟩ := ih (takeOut member keys)
    exact ⟨m + n, hfirst.trans hrest⟩

/-! ## First members -/

variable {b : Bindings} {keys : List Key} {driver : Key}

/-- The drivers behind the first one are in other groups, and see nothing of what the first one
takes out. -/
theorem Built.notMem_find_of_later (hb : b.Built) {head : Key} {rest : List Key}
    (hd : (head :: rest).Nodup) (h : driver ∈ b.drivers (takeOutAll (b.others head) rest))
    {key : Key} (hk : key ∈ b.find head) :
    key ∉ b.find driver := by
  intro hin
  have hmem := b.mem_of_mem_drivers (nodup_takeOutAll (List.nodup_cons.1 hd).2 _) h
  have hapart := ((b.mem_rest_iff hd driver).1 hmem).2
  rw [← hb.find_eq_of_mem hk, hb.find_eq_of_mem hin] at hapart
  exact hapart (b.mem_find_self driver)

/-- A group is driven by its first member if no group that begins in front of it has a second
key. -/
theorem Built.first_of_undisturbed (hb : b.Built) (hd : keys.Nodup) (h : driver ∈ b.drivers keys)

    (hu : ∀ earlier ∈ keys.takeWhile (· ∉ b.find driver),
      ∀ other ∈ keys, other ∈ b.find earlier → other = earlier) :
    keys.find? (· ∈ b.find driver) = some driver := by
  induction keys with
  | nil => simp [drivers_nil] at h
  | cons head rest ih =>
    have hsplit := h
    rw [drivers_cons, List.mem_cons] at hsplit
    rcases hsplit with rfl | hlater
    · exact List.find?_cons_of_pos (by simp [b.mem_find_self])
    · have hhead : head ∉ b.find driver := hb.notMem_find_of_later hd hlater (b.mem_find_self head)
      rw [List.takeWhile_cons_of_pos (by simp [hhead]), List.forall_mem_cons] at hu
      -- the head is alone in its group, so nothing is taken out for it
      have hnone : takeOutAll (b.others head) rest = rest := by
        apply takeOutAll_eq_self
        intro member hm hin
        rw [mem_others_iff] at hm
        exact hm.2 (hu.1 member (List.mem_cons_of_mem _ hin) hm.1)
      rw [hnone] at hlater
      rw [List.find?_cons_of_neg (by simp [hhead])]
      refine ih (List.nodup_cons.1 hd).2 hlater ?_
      intro earlier he other ho
      exact hu.2 earlier he other (List.mem_cons_of_mem _ ho)

/-- What is taken out for the first driver counts for every group behind it. -/
theorem Built.countP_taken (hb : b.Built) {head : Key} {rest later : List Key}
    (hd : (head :: rest).Nodup) (hl : takeOutAll (b.others head) rest = later)
    (h : driver ∈ b.drivers later) :
    (head :: rest).countP (fun key => key ∉ b.drivers (head :: rest) ∧ key ∉ b.find driver) =
      later.countP (fun key => key ∉ b.drivers later ∧ key ∉ b.find driver) +
        (rest.length - later.length) := by
  have hperm : later.Perm (rest.filter (· ∉ b.find head)) := hl ▸ b.rest_perm_filter hd
  have hdrivers : b.drivers (head :: rest) = head :: b.drivers later := by rw [drivers_cons, hl]
  -- the keys that stay are counted behind the head as they are counted without it
  have hstay : later.countP (fun key => key ∉ b.drivers (head :: rest) ∧ key ∉ b.find driver) =
      later.countP (fun key => key ∉ b.drivers later ∧ key ∉ b.find driver) := by
    apply List.countP_congr
    intro key hk
    have hne : key ≠ head := by
      rintro rfl
      exact (List.nodup_cons.1 hd).1 (List.mem_of_mem_filter (hperm.mem_iff.1 hk))
    simp [hdrivers, hne]
  -- the keys that go are all counted
  have hgone : (rest.filter fun key => !decide (key ∉ b.find head)).countP
        (fun key => key ∉ b.drivers (head :: rest) ∧ key ∉ b.find driver) =
      (rest.filter fun key => !decide (key ∉ b.find head)).length := by
    rw [List.countP_eq_length]
    intro key hk
    obtain ⟨hin, hfind⟩ : key ∈ rest ∧ key ∈ b.find head := by simpa using hk
    simpa using ⟨b.notMem_drivers hd hin hfind, hb.notMem_find_of_later hd (hl ▸ h) hfind⟩
  rw [List.countP_cons_of_neg (by simp [hdrivers]),
    List.countP_eq_countP_filter_add rest _ (· ∉ b.find head), hgone, ← hperm.countP_eq, hstay,
    List.length_eq_length_filter_add (l := rest) (· ∉ b.find head), ← hperm.length_eq,
    Nat.add_sub_cancel_left]

/-- A group is driven by its first member, or by one of the last keys, as many as keys of other
groups are taken out. -/
theorem Built.first_or_late (hb : b.Built) (hd : keys.Nodup) (h : driver ∈ b.drivers keys) :
    keys.find? (· ∈ b.find driver) = some driver ∨
      driver ∈ keys.rtake (keys.countP fun key => key ∉ b.drivers keys ∧ key ∉ b.find driver) := by
  induction keys using drivers.induct b with
  | case1 => simp [drivers_nil] at h
  | case2 head rest _ ih =>
    have hsplit := h
    rw [drivers_cons, List.mem_cons] at hsplit
    rcases hsplit with rfl | hlater
    · exact .inl (List.find?_cons_of_pos (by simp [b.mem_find_self]))
    · have hhead : head ∉ b.find driver := hb.notMem_find_of_later hd hlater (b.mem_find_self head)
      obtain ⟨taken, hclosed⟩ := closedUp_takeOutAll (b.others head) rest
      have htaken : rest.length - (takeOutAll (b.others head) rest).length = taken := by
        have := hclosed.length
        omega
      rw [hb.countP_taken hd rfl hlater, htaken, List.find?_cons_of_neg (by simp [hhead])]
      rcases ih (nodup_takeOutAll (List.nodup_cons.1 hd).2 _) hlater with hfirst | hlate
      · -- what is left has the same first one, unless that one has moved for the head just now
        have hkind : ∀ member ∈ b.others head, decide (member ∈ b.find driver) = false := by
          intro member hm
          simpa using hb.notMem_find_of_later hd hlater ((b.mem_others_iff head member).1 hm).1
        rcases hclosed.first _ hkind driver hfirst with hfound | hmoved
        · exact .inl hfound
        · exact .inr (rtake_subset_cons _ head rest
            (rtake_subset_rtake (Nat.le_add_left taken _) rest hmoved))
      · exact .inr (rtake_subset_cons _ head rest (hclosed.late _ hlate))

/-- **A group is driven by its first member, unless it is overtaken.** The driver of a group is the
first of its members in the list; or else some group that begins in front of that one has a second
key in the list, and the driver is one of the last keys of the list, as many as keys of other groups
are taken out. -/
theorem driver_first_or_late {b : Bindings} (hb : b.Built) {keys : List Key} (hd : keys.Nodup)
    {driver : Key} (h : driver ∈ b.drivers keys) :
    keys.find? (· ∈ b.find driver) = some driver ∨
      (∃ earlier ∈ keys.takeWhile (· ∉ b.find driver),
        ∃ other ∈ keys, other ∈ b.find earlier ∧ other ≠ earlier) ∧
        driver ∈ keys.rtake (keys.countP fun key =>
          key ∉ b.drivers keys ∧ key ∉ b.find driver) := by
  by_cases hfirst : keys.find? (· ∈ b.find driver) = some driver
  · exact .inl hfirst
  · right
    refine ⟨?_, (hb.first_or_late hd h).resolve_left hfirst⟩
    by_contra hundisturbed
    apply hfirst
    apply hb.first_of_undisturbed hd h
    intro earlier he other ho hin
    by_contra hne
    exact hundisturbed ⟨earlier, he, other, ho, hin, hne⟩

/-- Two groups of two. -/
def twoPairs : Bindings := ⟨[[⟨["a"]⟩, ⟨["b"]⟩], [⟨["c"]⟩, ⟨["d"]⟩]]⟩

theorem built_twoPairs : twoPairs.Built :=
  .ofGroups (show ofGroups [[⟨["a"]⟩, ⟨["b"]⟩], [⟨["c"]⟩, ⟨["d"]⟩]] = .ok _ from rfl)

/-- One key is taken out for the first pair, and the one key at the end is of neither: the second
pair is driven by its first member. -/
theorem driver_first_of_pair :
    twoPairs.Built ∧ ([⟨["a"]⟩, ⟨["b"]⟩, ⟨["c"]⟩, ⟨["d"]⟩, ⟨["e"]⟩] : List Key).Nodup ∧
      (⟨["c"]⟩ : Key) ∈ twoPairs.drivers [⟨["a"]⟩, ⟨["b"]⟩, ⟨["c"]⟩, ⟨["d"]⟩, ⟨["e"]⟩] ∧
      [⟨["a"]⟩, ⟨["b"]⟩, ⟨["c"]⟩, ⟨["d"]⟩, ⟨["e"]⟩].find? (· ∈ twoPairs.find ⟨["c"]⟩) =
        some ⟨["c"]⟩ := by
  have hn : ([⟨["a"]⟩, ⟨["b"]⟩, ⟨["c"]⟩, ⟨["d"]⟩, ⟨["e"]⟩] : List Key).Nodup := by decide
  have hdrivers : twoPairs.drivers [⟨["a"]⟩, ⟨["b"]⟩, ⟨["c"]⟩, ⟨["d"]⟩, ⟨["e"]⟩] =
      [⟨["a"]⟩, ⟨["e"]⟩, ⟨["c"]⟩] := by cbv
  have hc : (⟨["c"]⟩ : Key) ∈ twoPairs.drivers [⟨["a"]⟩, ⟨["b"]⟩, ⟨["c"]⟩, ⟨["d"]⟩, ⟨["e"]⟩] := by
    rw [hdrivers]
    decide
  refine ⟨built_twoPairs, hn, hc, (driver_first_or_late built_twoPairs hn hc).resolve_right ?_⟩
  rw [hdrivers]
  decide

/-- Without a key behind the pairs, the last member of the second pair moves in front of the first
one and drives it. -/
theorem overtaken_member :
    twoPairs.Built ∧ ([⟨["a"]⟩, ⟨["b"]⟩, ⟨["c"]⟩, ⟨["d"]⟩] : List Key).Nodup ∧
      twoPairs.drivers [⟨["a"]⟩, ⟨["b"]⟩, ⟨["c"]⟩, ⟨["d"]⟩] = [⟨["a"]⟩, ⟨["d"]⟩] ∧
      [⟨["a"]⟩, ⟨["b"]⟩, ⟨["c"]⟩, ⟨["d"]⟩].find? (· ∈ twoPairs.find ⟨["d"]⟩) = some ⟨["c"]⟩ := by
  refine ⟨built_twoPairs, by decide, by cbv, by decide⟩

end Sweep.Bindings
