import Mathlib.Data.List.Nodup
import Mathlib.Data.List.Pairwise
import Sweep.Bindings

/-!
# Groups that can be declared

The only way to bindings is `Bindings.bind`, starting from none; `Built` says so. Every key of such
bindings stands in one place: the groups are free of repeats and share no key (`Built.nodup`). So
`find` cuts all keys into classes: a key is in its own group, and whoever is in the group of a key
has that same group.
-/

set_option autoImplicit false

namespace Sweep.Bindings

/-- Bindings that come about by declaring groups. A group that is refused changes nothing. -/
inductive Built : Bindings → Prop
  | empty : Built empty
  | bind {b b' : Bindings} {group : List Key} : Built b → b.bind group = .ok b' → Built b'

theorem Built.bindAll {groups : List (List Key)} {b b' : Bindings} (hb : b.Built)
    (h : b.bindAll groups = .ok b') : b'.Built := by
  induction groups generalizing b with
  | nil =>
    cases h
    exact hb
  | cons group rest ih =>
    rw [Bindings.bindAll] at h
    split at h
    · rename_i next hn
      exact ih (hb.bind hn) h
    · exact absurd h (by simp)

theorem Built.ofGroups {groups : List (List Key)} {b : Bindings} (h : ofGroups groups = .ok b) :
    b.Built :=
  Built.bindAll .empty h

/-! ## Every key in one place -/

theorem isBound_iff (b : Bindings) (key : Key) : b.isBound key = true ↔ key ∈ b.groups.flatten := by
  simp [isBound, List.mem_flatten]

/-- A group passes if its keys are distinct, new among the `earlier` ones, and unbound. -/
theorem firstClash?_eq_none_iff (b : Bindings) (earlier keys : List Key) :
    b.firstClash? earlier keys = none ↔
      keys.Nodup ∧ ∀ key ∈ keys, key ∉ earlier ∧ key ∉ b.groups.flatten := by
  induction keys generalizing earlier with
  | nil => simp [firstClash?]
  | cons key rest ih =>
    rw [firstClash?]
    split
    · -- the key clashes, so the second side fails at the key
      rename_i hc
      rw [Bool.or_eq_true, List.contains_iff_mem, isBound_iff] at hc
      simp only [List.mem_cons, reduceCtorEq, false_iff]
      rintro ⟨-, hall⟩
      obtain ⟨he, hn⟩ := hall key (.inl rfl)
      exact hc.elim he hn
    · -- the rest is scanned with the key among the earlier ones, which is where `Nodup` comes from
      rename_i hc
      rw [Bool.or_eq_true, List.contains_iff_mem, isBound_iff, not_or] at hc
      rw [ih, List.nodup_cons]
      constructor
      · rintro ⟨hd, hall⟩
        refine ⟨⟨fun hk => (hall key hk).1 List.mem_cons_self, hd⟩, fun other ho => ?_⟩
        rcases List.mem_cons.1 ho with rfl | hr
        · exact hc
        · exact ⟨fun hm => (hall other hr).1 (List.mem_cons_of_mem _ hm), (hall other hr).2⟩
      · rintro ⟨⟨hk, hd⟩, hall⟩
        refine ⟨hd, fun other ho => ⟨fun hm => ?_, (hall other (List.mem_cons_of_mem _ ho)).2⟩⟩
        rcases List.mem_cons.1 hm with rfl | hm
        · exact hk ho
        · exact (hall other (List.mem_cons_of_mem _ ho)).1 hm

theorem bind_eq_ok_iff (b b' : Bindings) (group : List Key) :
    b.bind group = .ok b' ↔
      (group.Nodup ∧ ∀ key ∈ group, key ∉ b.groups.flatten) ∧ b' = ⟨b.groups ++ [group]⟩ := by
  have hc := firstClash?_eq_none_iff b [] group
  simp only [List.not_mem_nil, not_false_eq_true, true_and] at hc
  rw [← hc, bind]
  cases b.firstClash? [] group with
  | none => simp [eq_comm]
  | some key => simp

/-- **No key is bound twice**, in one group or in two. -/
theorem Built.nodup {b : Bindings} (hb : b.Built) : b.groups.flatten.Nodup := by
  induction hb with
  | empty => exact List.nodup_nil
  | bind _ h ih =>
    obtain ⟨⟨hd, hn⟩, rfl⟩ := (bind_eq_ok_iff _ _ _).1 h
    rw [List.flatten_append, List.flatten_cons, List.flatten_nil, List.append_nil,
      List.nodup_append']
    exact ⟨ih, hd, fun key hk hg => hn key hg hk⟩

/-! ## The group of a key -/

/-- The group of a key is a declared one, or the key alone if no group holds it. -/
theorem find_cases (b : Bindings) (key : Key) :
    (b.find key ∈ b.groups ∧ key ∈ b.find key) ∨ (b.find key = [key] ∧ key ∉ b.groups.flatten) := by
  rw [find]
  cases hf : b.groups.find? (·.contains key) with
  | some group =>
    have hk := List.find?_some hf
    exact .inl ⟨List.mem_of_find?_eq_some hf, List.contains_iff_mem.1 hk⟩
  | none =>
    refine .inr ⟨rfl, fun hm => ?_⟩
    obtain ⟨group, hg, hk⟩ := List.mem_flatten.1 hm
    exact List.find?_eq_none.1 hf group hg (List.contains_iff_mem.2 hk)

theorem mem_find_self (b : Bindings) (key : Key) : key ∈ b.find key := by
  rcases find_cases b key with ⟨-, hk⟩ | ⟨he, -⟩
  · exact hk
  · rw [he]
    exact List.mem_cons_self

theorem Built.group_unique {b : Bindings} (hb : b.Built) {first second : List Key}
    (h₁ : first ∈ b.groups) (h₂ : second ∈ b.groups) {key : Key} (hk₁ : key ∈ first)
    (hk₂ : key ∈ second) : first = second := by
  have : Std.Symm (List.Disjoint (α := Key)) := ⟨fun _ _ h _ ha hb => h hb ha⟩
  by_contra hne
  exact (List.nodup_flatten.1 hb.nodup).2.forall h₁ h₂ hne hk₁ hk₂

theorem Built.find_eq_of_mem_group {b : Bindings} (hb : b.Built) {group : List Key}
    (hg : group ∈ b.groups) {key : Key} (hk : key ∈ group) : b.find key = group := by
  rcases find_cases b key with ⟨hf, hm⟩ | ⟨-, hn⟩
  · exact hb.group_unique hf hg hm hk
  · exact absurd (List.mem_flatten_of_mem hg hk) hn

/-- **Whoever is in the group of a key has that group.** -/
theorem Built.find_eq_of_mem {b : Bindings} (hb : b.Built) {key other : Key}
    (h : other ∈ b.find key) :
    b.find other = b.find key := by
  rcases find_cases b key with ⟨hf, -⟩ | ⟨he, -⟩
  · exact hb.find_eq_of_mem_group hf h
  · rw [he, List.mem_singleton] at h
    rw [h]

theorem Built.mem_find_comm {b : Bindings} (hb : b.Built) {key other : Key}
    (h : other ∈ b.find key) :
    key ∈ b.find other := by
  rw [hb.find_eq_of_mem h]
  exact mem_find_self b key

theorem Built.nodup_find {b : Bindings} (hb : b.Built) (key : Key) : (b.find key).Nodup := by
  rcases find_cases b key with ⟨hf, -⟩ | ⟨he, -⟩
  · exact (List.nodup_flatten.1 hb.nodup).1 _ hf
  · rw [he]
    exact List.nodup_singleton key

theorem mem_others_iff (b : Bindings) (key other : Key) :
    other ∈ b.others key ↔ other ∈ b.find key ∧ other ≠ key := by
  simp [others]

theorem Built.cons_others_perm {b : Bindings} (hb : b.Built) (key : Key) :
    (key :: b.others key).Perm (b.find key) := by
  -- without repeats, filtering the key out is erasing it once
  have ho : b.others key = (b.find key).erase key := by
    rw [others, (hb.nodup_find key).erase_eq_filter]
    exact List.filter_congr fun other _ => by simp [bne, beq_eq_decide]
  rw [ho]
  exact (List.perm_cons_erase (mem_find_self b key)).symm

end Sweep.Bindings
