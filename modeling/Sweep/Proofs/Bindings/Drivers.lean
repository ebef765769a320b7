import Mathlib.Data.List.Perm.Basic
import Sweep.Proofs.Bindings.Groups

/-!
# One driver per group

`Bindings.drivers` brings a list of keys to one key per group. Taking a key out of the list moves
the last key into the gap, so the list is only known up to its order: up to order, taking out is
erasing (`takeOut_perm`). Of a list without repeats this leaves exactly the keys that are no
members, which is all that the facts about drivers need:

* no driver is in the group of another one (`pairwise_drivers`);
* every key of the list is in the group of some driver (`exists_driver`).

Together: every group that the list meets has exactly one driver (`drivers_represent`). Where no key
has a member of its group behind it nothing is taken out, and the list stays as it is
(`drivers_eq_self`); the drivers are such a list.
-/

set_option autoImplicit false

namespace Sweep.Bindings

/-! ## Taking keys out -/

theorem takeOut_perm (key : Key) (keys : List Key) : (takeOut key keys).Perm (keys.erase key) := by
  induction keys with
  | nil => exact .refl _
  | cons other rest ih =>
    rw [takeOut]
    split
    · -- the last key moves into the gap
      rename_i he
      subst he
      rw [List.erase_cons_head]
      cases hl : rest.getLast? with
      | none => rw [List.getLast?_eq_none_iff.1 hl]
      | some last =>
        have hr : rest.dropLast ++ [last] = rest := List.dropLast_append_getLast? last hl
        exact (List.perm_append_singleton last rest.dropLast).symm.trans (.of_eq hr)
    · rename_i he
      rw [List.erase_cons_tail (by simpa using he)]
      exact ih.cons other

theorem takeOutAll_perm (members keys : List Key) :
    (takeOutAll members keys).Perm (keys.diff members) := by
  induction members generalizing keys with
  | nil => exact .refl _
  | cons member rest ih =>
    rw [List.diff_cons]
    exact (ih _).trans ((takeOut_perm member keys).diff_right rest)

theorem nodup_takeOutAll {keys : List Key} (hd : keys.Nodup) (members : List Key) :
    (takeOutAll members keys).Nodup :=
  (takeOutAll_perm members keys).nodup_iff.2 hd.diff

theorem mem_takeOutAll_iff {keys : List Key} (hd : keys.Nodup) (members : List Key) (key : Key) :
    key ∈ takeOutAll members keys ↔ key ∈ keys ∧ key ∉ members := by
  rw [(takeOutAll_perm members keys).mem_iff, hd.mem_sdiff_iff]

theorem takeOut_eq_self {key : Key} {keys : List Key} (h : key ∉ keys) :
    takeOut key keys = keys := by
  induction keys with
  | nil => rfl
  | cons other rest ih =>
    rw [List.mem_cons, not_or] at h
    rw [takeOut, if_neg (Ne.symm h.1), ih h.2]

theorem takeOutAll_eq_self {members keys : List Key} (h : ∀ member ∈ members, member ∉ keys) :
    takeOutAll members keys = keys := by
  induction members with
  | nil => rfl
  | cons member rest ih =>
    rw [List.forall_mem_cons] at h
    rw [takeOutAll, List.foldl_cons, takeOut_eq_self h.1]
    exact ih h.2

/-! ## Drivers -/

variable (b : Bindings)

theorem drivers_nil : b.drivers [] = [] := by
  rw [drivers]

theorem drivers_cons (driver : Key) (rest : List Key) :
    b.drivers (driver :: rest) = driver :: b.drivers (takeOutAll (b.others driver) rest) := by
  rw [drivers]

theorem mem_rest_iff {driver : Key} {rest : List Key} (hd : (driver :: rest).Nodup) (key : Key) :
    key ∈ takeOutAll (b.others driver) rest ↔ key ∈ rest ∧ key ∉ b.find driver := by
  obtain ⟨hn, hr⟩ := List.nodup_cons.1 hd
  rw [mem_takeOutAll_iff hr, mem_others_iff]
  constructor
  · rintro ⟨hk, ho⟩
    exact ⟨hk, fun hf => ho ⟨hf, fun he => hn (he ▸ hk)⟩⟩
  · rintro ⟨hk, hf⟩
    exact ⟨hk, fun ho => hf ho.1⟩

theorem rest_perm_filter {driver : Key} {rest : List Key} (hd : (driver :: rest).Nodup) :
    (takeOutAll (b.others driver) rest).Perm (rest.filter (· ∉ b.find driver)) := by
  have hr := (List.nodup_cons.1 hd).2
  rw [List.perm_ext_iff_of_nodup (nodup_takeOutAll hr _) (hr.filter _)]
  intro key
  rw [b.mem_rest_iff hd, List.mem_filter, decide_eq_true_eq]

theorem mem_of_mem_drivers {keys : List Key} (hd : keys.Nodup) {driver : Key}
    (h : driver ∈ b.drivers keys) :
    driver ∈ keys := by
  induction keys using drivers.induct b with
  | case1 => exact absurd h (by simp [drivers_nil])
  | case2 first rest _ ih =>
    rw [drivers_cons] at h
    rcases List.mem_cons.1 h with rfl | hr
    · exact List.mem_cons_self
    · have hm := ih (nodup_takeOutAll (List.nodup_cons.1 hd).2 _) hr
      exact List.mem_cons_of_mem _ ((b.mem_rest_iff hd driver).1 hm).1

/-- **No driver is in the group of an earlier one.** -/
theorem pairwise_drivers {keys : List Key} (hd : keys.Nodup) :
    (b.drivers keys).Pairwise fun first second => second ∉ b.find first := by
  induction keys using drivers.induct b with
  | case1 =>
    rw [drivers_nil]
    exact .nil
  | case2 first rest _ ih =>
    have hr := nodup_takeOutAll (List.nodup_cons.1 hd).2 (b.others first)
    rw [drivers_cons]
    refine List.pairwise_cons.2 ⟨fun second hs => ?_, ih hr⟩
    exact ((b.mem_rest_iff hd second).1 (b.mem_of_mem_drivers hr hs)).2

/-- What is taken out for the first driver is no driver. -/
theorem notMem_drivers {driver : Key} {rest : List Key} (hd : (driver :: rest).Nodup) {key : Key}
    (hk : key ∈ rest) (hin : key ∈ b.find driver) : key ∉ b.drivers (driver :: rest) := by
  intro hm
  rw [drivers_cons, List.mem_cons] at hm
  rcases hm with rfl | hlater
  · exact (List.nodup_cons.1 hd).1 hk
  · have hrest := b.mem_of_mem_drivers (nodup_takeOutAll (List.nodup_cons.1 hd).2 _) hlater
    exact ((b.mem_rest_iff hd key).1 hrest).2 hin

/-- **Every key is in the group of a driver.** -/
theorem exists_driver {keys : List Key} (hd : keys.Nodup) {key : Key} (hk : key ∈ keys) :
    ∃ driver ∈ b.drivers keys, key ∈ b.find driver := by
  induction keys using drivers.induct b with
  | case1 => exact absurd hk (by simp)
  | case2 first rest _ ih =>
    rw [drivers_cons]
    by_cases hf : key ∈ b.find first
    · exact ⟨first, List.mem_cons_self, hf⟩
    · have hr : key ∈ rest := (List.mem_cons.1 hk).resolve_left fun he =>
        hf (he ▸ b.mem_find_self first)
      obtain ⟨driver, hm, hin⟩ :=
        ih (nodup_takeOutAll (List.nodup_cons.1 hd).2 _) ((b.mem_rest_iff hd key).2 ⟨hr, hf⟩)
      exact ⟨driver, List.mem_cons_of_mem _ hm, hin⟩

/-- **The groups of the drivers are different ones.** -/
theorem nodup_find_drivers {keys : List Key} (hd : keys.Nodup) :
    ((b.drivers keys).map b.find).Nodup := by
  rw [List.Nodup, List.pairwise_map]
  refine (b.pairwise_drivers hd).imp ?_
  intro first second hn he
  rw [he] at hn
  exact hn (b.mem_find_self second)

theorem nodup_drivers {keys : List Key} (hd : keys.Nodup) : (b.drivers keys).Nodup :=
  (b.nodup_find_drivers hd).of_map b.find

theorem head?_drivers (keys : List Key) : (b.drivers keys).head? = keys.head? := by
  cases keys with
  | nil => rw [drivers_nil]
  | cons driver rest => rw [drivers_cons, List.head?_cons, List.head?_cons]

/-- A list stays as it is if no key is in the group of an earlier one. -/
theorem drivers_eq_self {keys : List Key}
    (h : keys.Pairwise fun first second => second ∉ b.find first) :
    b.drivers keys = keys := by
  induction keys with
  | nil => exact b.drivers_nil
  | cons driver rest ih =>
    obtain ⟨hn, hr⟩ := List.pairwise_cons.1 h
    have hnone : takeOutAll (b.others driver) rest = rest := by
      apply takeOutAll_eq_self
      intro member hm hin
      exact hn member hin ((b.mem_others_iff driver member).1 hm).1
    rw [drivers_cons, hnone, ih hr]

theorem Built.nodup_driven {b : Bindings} (hb : b.Built) {keys : List Key} (hd : keys.Nodup) :
    ((b.drivers keys).flatMap b.find).Nodup := by
  rw [List.nodup_flatMap]
  refine ⟨fun driver _ => hb.nodup_find driver,
    (b.pairwise_drivers hd).imp fun {first second} hn => ?_⟩
  -- a shared key would put the later driver into the group of the earlier one
  intro key h₁ h₂
  exact hn (hb.find_eq_of_mem h₁ ▸ hb.mem_find_comm h₂)

/-- The drivers of some keys drive the groups of these keys. -/
theorem Built.mem_find_drivers_iff {b : Bindings} (hb : b.Built) {keys : List Key} (hd : keys.Nodup)
    (group : List Key) :
    group ∈ (b.drivers keys).map b.find ↔ group ∈ keys.map b.find := by
  constructor
  · intro hg
    obtain ⟨driver, hm, rfl⟩ := List.mem_map.1 hg
    exact List.mem_map_of_mem (b.mem_of_mem_drivers hd hm)
  · intro hg
    obtain ⟨key, hk, rfl⟩ := List.mem_map.1 hg
    obtain ⟨driver, hm, hin⟩ := b.exists_driver hd hk
    rw [hb.find_eq_of_mem hin]
    exact List.mem_map_of_mem hm

/-- **No key is in the groups of two drivers.** -/
theorem Built.driver_unique {b : Bindings} (hb : b.Built) {keys : List Key} (hd : keys.Nodup)
    {first second key : Key} (hf : first ∈ b.drivers keys) (hs : second ∈ b.drivers keys)
    (hkf : key ∈ b.find first) (hks : key ∈ b.find second) :
    first = second := by
  apply List.inj_on_of_nodup_map (b.nodup_find_drivers hd) hf hs
  rw [← hb.find_eq_of_mem hkf, ← hb.find_eq_of_mem hks]

/-- **The drivers represent the groups of a list.** Of a list without repeats they are keys, none of
them twice; every group that the list meets, declared or of a single key, has exactly one of them,
and two of them are never of one group. The first key is the first driver. A list with no two keys
of one group is its own list of drivers, so the drivers of the drivers are the same. -/
theorem drivers_represent {b : Bindings} (hb : b.Built) {keys : List Key} (hd : keys.Nodup) :
    (b.drivers keys).Nodup ∧ (∀ driver ∈ b.drivers keys, driver ∈ keys) ∧
      (∀ key ∈ keys, ∃! driver, driver ∈ b.drivers keys ∧ driver ∈ b.find key) ∧
      ((b.drivers keys).map b.find).Nodup ∧ (b.drivers keys).head? = keys.head? ∧
      ((keys.map b.find).Nodup → b.drivers keys = keys) ∧
      b.drivers (b.drivers keys) = b.drivers keys := by
  refine ⟨b.nodup_drivers hd, fun driver h => b.mem_of_mem_drivers hd h, ?_,
    b.nodup_find_drivers hd, b.head?_drivers keys, ?_, ?_⟩
  · intro key hk
    obtain ⟨driver, hm, hin⟩ := b.exists_driver hd hk
    refine ⟨driver, ⟨hm, hb.mem_find_comm hin⟩, ?_⟩
    rintro other ⟨ho, hother⟩
    exact hb.driver_unique hd ho hm (hb.mem_find_comm hother) hin
  · intro hgroups
    apply b.drivers_eq_self
    refine (List.pairwise_map.1 hgroups).imp ?_
    intro first second hne hin
    exact hne (hb.find_eq_of_mem hin).symm
  · exact b.drivers_eq_self (b.pairwise_drivers hd)

/-- Sizes in three dimensions and a seed that goes with a name. -/
def sizesAndSeeds :
    Bindings := ⟨[[⟨["width"]⟩, ⟨["height"]⟩, ⟨["depth"]⟩], [⟨["seed"]⟩, ⟨["name"]⟩]]⟩

/-- The height drives the sizes and the name drives the seed; the mode that was last has moved in
front of the name. -/
theorem drivers_represent_sizes :
    sizesAndSeeds.Built ∧
      ([⟨["height"]⟩, ⟨["width"]⟩, ⟨["name"]⟩, ⟨["depth"]⟩, ⟨["seed"]⟩, ⟨["mode"]⟩] :
        List Key).Nodup ∧
      sizesAndSeeds.drivers [⟨["height"]⟩, ⟨["width"]⟩, ⟨["name"]⟩, ⟨["depth"]⟩,
          ⟨["seed"]⟩, ⟨["mode"]⟩] =
        [⟨["height"]⟩, ⟨["mode"]⟩, ⟨["name"]⟩] ∧
      sizesAndSeeds.drivers [⟨["height"]⟩, ⟨["mode"]⟩, ⟨["name"]⟩] =
        [⟨["height"]⟩, ⟨["mode"]⟩, ⟨["name"]⟩] := by
  have hb : sizesAndSeeds.Built :=
    .ofGroups (show ofGroups [[⟨["width"]⟩, ⟨["height"]⟩, ⟨["depth"]⟩],
      [⟨["seed"]⟩, ⟨["name"]⟩]] = .ok _ from rfl)
  have hn : ([⟨["height"]⟩, ⟨["width"]⟩, ⟨["name"]⟩, ⟨["depth"]⟩, ⟨["seed"]⟩,
      ⟨["mode"]⟩] : List Key).Nodup := by decide
  have hdrivers :
      sizesAndSeeds.drivers [⟨["height"]⟩, ⟨["width"]⟩, ⟨["name"]⟩, ⟨["depth"]⟩,
        ⟨["seed"]⟩, ⟨["mode"]⟩] =
      [⟨["height"]⟩, ⟨["mode"]⟩, ⟨["name"]⟩] := by cbv
  obtain ⟨-, -, -, -, -, -, hagain⟩ := drivers_represent hb hn
  rw [hdrivers] at hagain
  exact ⟨hb, hn, hdrivers, hagain⟩

end Sweep.Bindings
