import Sweep.Proofs.Bindings.Groups
import Sweep.Proofs.Key.Reading

/-!
# Groups declared one after the other

Bindings come about by calls of `bind`, some of which are refused. `afterCalls` makes the calls, and
`accepted` says what should be left of them, with no mention of `bind`:

> a group is accepted exactly if it is **fresh** when its turn comes: none of its keys is met a
> second time, in the group itself or in a group that was accepted before.

The two agree (`afterCalls_eq`). A group that is not fresh has a first key that is met a second
time, and that key is the one that the refusal names (`bind_eq_error_iff`): the group is fresh in
front of it and no longer fresh with it.

What can be left is told once for all calls (`Partition`), and it is the same whatever the order in
which the groups were declared (`find_perm`, `accepted_of_nodup`).
-/

set_option autoImplicit false

namespace Sweep

theorem Key.KeySetText.ne_nil {text : List Char} {keys : List Key} (h : KeySetText text keys) :
    keys ≠ [] := by
  cases h with
  | last => exact List.cons_ne_nil _ _
  | cons => exact List.cons_ne_nil _ _

/-- Every text of a group has a key. -/
theorem Key.ne_nil_of_parseSet {text : String} {keys : List Key} (h : parseSet text = .ok keys) :
    keys ≠ [] := by
  rw [parseSet, Except.mapError_eq_ok_iff, readSet_eq_ok_iff] at h
  exact h.ne_nil

namespace Bindings

/-! ## The rule -/

/-- No key of the group is met a second time, in the group or in the groups before it. -/
def Fresh (earlier : List (List Key)) (group : List Key) : Prop :=
  group.Nodup ∧ ∀ key ∈ group, ∀ other ∈ earlier, key ∉ other

instance (earlier : List (List Key)) (group : List Key) : Decidable (Fresh earlier group) :=
  inferInstanceAs (Decidable (_ ∧ _))

/-- The groups that are declared already, and one more if it is fresh. -/
def accept (earlier : List (List Key)) (group : List Key) : List (List Key) :=
  if Fresh earlier group then earlier ++ [group] else earlier

/-- The groups that are fresh when their turn comes, in their order. -/
def accepted (calls : List (List Key)) : List (List Key) := calls.foldl accept []

theorem fresh_iff (earlier : List (List Key)) (group : List Key) :
    Fresh earlier group ↔ group.Nodup ∧ ∀ key ∈ group, key ∉ earlier.flatten := by
  simp [Fresh, List.mem_flatten]

theorem mem_of_mem_foldl_accept {earlier calls : List (List Key)} {group : List Key}
    (h : group ∈ calls.foldl accept earlier) : group ∈ earlier ∨ group ∈ calls := by
  induction calls generalizing earlier with
  | nil => exact .inl h
  | cons first rest ih =>
    rcases ih h with ha | hr
    · unfold accept at ha
      split at ha
      · rcases List.mem_append.1 ha with he | hf
        · exact .inl he
        · rw [List.mem_singleton.1 hf]
          exact .inr List.mem_cons_self
      · exact .inl ha
    · exact .inr (List.mem_cons_of_mem _ hr)

theorem mem_of_mem_accepted {calls : List (List Key)} {group : List Key}
    (h : group ∈ accepted calls) :
    group ∈ calls :=
  (mem_of_mem_foldl_accept h).resolve_left List.not_mem_nil

/-- Groups in which no key stands twice are all accepted. -/
theorem foldl_accept_of_nodup {earlier groups : List (List Key)}
    (h : (earlier ++ groups).flatten.Nodup) :
    groups.foldl accept earlier = earlier ++ groups := by
  induction groups generalizing earlier with
  | nil => simp
  | cons group rest ih =>
    have hsplit : earlier ++ group :: rest = earlier ++ [group] ++ rest := by simp
    rw [hsplit] at h ⊢
    -- what is declared so far and the next group are free of repeats, so the group is fresh
    have hfresh : Fresh earlier group := by
      rw [List.flatten_append] at h
      have hfront := (List.nodup_append'.1 h).1
      rw [List.flatten_append, List.flatten_cons, List.flatten_nil, List.append_nil] at hfront
      obtain ⟨-, hgroup, hapart⟩ := List.nodup_append'.1 hfront
      rw [fresh_iff]
      exact ⟨hgroup, fun key hk he => hapart he hk⟩
    rw [List.foldl_cons, accept, if_pos hfresh]
    exact ih h

theorem accepted_of_nodup {groups : List (List Key)} (h : groups.flatten.Nodup) :
    accepted groups = groups := by
  apply foldl_accept_of_nodup
  exact h

/-! ## The calls -/

/-- The bindings after one call of `bind`, which leaves them as they are if it refuses the group. -/
def attempt (b : Bindings) (group : List Key) : Bindings :=
  match b.bind group with
  | .ok next => next
  | .error _ => b

/-- The bindings after calls of `bind`, one after the other, from none. -/
def afterCalls (calls : List (List Key)) : Bindings := calls.foldl attempt empty

/-- **A group is accepted exactly if it is fresh.** -/
theorem bind_eq_ok_iff_fresh (b next : Bindings) (group : List Key) :
    b.bind group = .ok next ↔ Fresh b.groups group ∧ next = ⟨b.groups ++ [group]⟩ := by
  rw [bind_eq_ok_iff, fresh_iff]

theorem attempt_eq (earlier : List (List Key)) (group : List Key) :
    attempt ⟨earlier⟩ group = ⟨accept earlier group⟩ := by
  unfold attempt accept
  cases hbind : bind ⟨earlier⟩ group with
  | ok next =>
    obtain ⟨hfresh, rfl⟩ := (bind_eq_ok_iff_fresh _ _ _).1 hbind
    rw [if_pos hfresh]
  | error fault =>
    have hstale : ¬ Fresh earlier group := by
      intro hfresh
      have hok := (bind_eq_ok_iff_fresh ⟨earlier⟩ _ group).2 ⟨hfresh, rfl⟩
      rw [hbind] at hok
      cases hok
    rw [if_neg hstale]

theorem foldl_attempt_eq (earlier calls : List (List Key)) :
    calls.foldl attempt ⟨earlier⟩ = ⟨calls.foldl accept earlier⟩ := by
  induction calls generalizing earlier with
  | nil => rfl
  | cons group rest ih => rw [List.foldl_cons, List.foldl_cons, attempt_eq, ih]

/-- **The calls leave the groups that the rule accepts.** -/
theorem afterCalls_eq (calls : List (List Key)) : afterCalls calls = ⟨accepted calls⟩ :=
  foldl_attempt_eq [] calls

theorem built_attempt {b : Bindings} (hb : b.Built) (group : List Key) :
    (b.attempt group).Built := by
  unfold attempt
  split
  · next hbind => exact hb.bind hbind
  · exact hb

theorem built_foldl_attempt {b : Bindings} (hb : b.Built) (calls : List (List Key)) :
    (calls.foldl attempt b).Built := by
  induction calls generalizing b with
  | nil => exact hb
  | cons group rest ih => exact ih (built_attempt hb group)

theorem built_afterCalls (calls : List (List Key)) : (afterCalls calls).Built :=
  built_foldl_attempt .empty calls

/-! ## The key that a refusal names -/

/-- The scan stops at the first key with which the keys so far no longer pass. -/
theorem firstClash?_eq_some_iff (b : Bindings) (earlier keys : List Key) (key : Key) :
    b.firstClash? earlier keys = some key ↔
      ∃ before after, keys = before ++ key :: after ∧ b.firstClash? earlier before = none ∧
        b.firstClash? earlier (before ++ [key]) ≠ none := by
  constructor
  · intro h
    induction keys generalizing earlier with
    | nil => cases h
    | cons first rest ih =>
      by_cases hc : (earlier.contains first || b.isBound first) = true
      · rw [firstClash?, if_pos hc] at h
        cases h
        refine ⟨[], rest, rfl, rfl, ?_⟩
        rw [List.nil_append, firstClash?, if_pos hc]
        exact Option.some_ne_none _
      · rw [firstClash?, if_neg hc] at h
        obtain ⟨before, after, rfl, hnone, hsome⟩ := ih _ h
        refine ⟨first :: before, after, rfl, ?_, ?_⟩
        · rw [firstClash?, if_neg hc]
          exact hnone
        · rw [List.cons_append, firstClash?, if_neg hc]
          exact hsome
  · rintro ⟨before, after, rfl, hnone, hsome⟩
    induction before generalizing earlier with
    | nil =>
      rw [List.nil_append, firstClash?] at hsome
      split at hsome
      · next hc => rw [List.nil_append, firstClash?, if_pos hc]
      · exact absurd rfl hsome
    | cons first before ih =>
      rw [firstClash?] at hnone
      split at hnone
      · cases hnone
      · next hc =>
        rw [List.cons_append, firstClash?, if_neg hc] at hsome ⊢
        exact ih _ hnone hsome

theorem firstClash?_eq_none_iff_fresh (b : Bindings) (keys : List Key) :
    b.firstClash? [] keys = none ↔ Fresh b.groups keys := by
  simp [firstClash?_eq_none_iff, fresh_iff]

/-- **A refusal names the first key that is met a second time.** -/
theorem bind_eq_error_iff (b : Bindings) (group : List Key) (fault : Fault) :
    b.bind group = .error fault ↔
      ∃ before key after, group = before ++ key :: after ∧ fault = .duplicateBinding key ∧
        Fresh b.groups before ∧ ¬ Fresh b.groups (before ++ [key]) := by
  have hscan : b.bind group = .error fault ↔
      ∃ key, b.firstClash? [] group = some key ∧ fault = .duplicateBinding key := by
    unfold bind
    cases b.firstClash? [] group with
    | none => simp
    | some key => simp [eq_comm]
  rw [hscan]
  constructor
  · rintro ⟨key, hkey, rfl⟩
    obtain ⟨before, after, hgroup, hnone, hsome⟩ := (firstClash?_eq_some_iff _ _ _ _).1 hkey
    rw [ne_eq, firstClash?_eq_none_iff_fresh] at hsome
    exact ⟨before, key, after, hgroup, rfl, (firstClash?_eq_none_iff_fresh _ _).1 hnone, hsome⟩
  · rintro ⟨before, key, after, hgroup, rfl, hfresh, hstale⟩
    rw [← firstClash?_eq_none_iff_fresh] at hfresh hstale
    exact ⟨key, (firstClash?_eq_some_iff _ _ _ _).2 ⟨before, after, hgroup, hfresh, hstale⟩, rfl⟩

/-! ## What can be left -/

/-- Every key stands in one group at most, so that `find` cuts all keys into classes. -/
structure Partition (b : Bindings) : Prop where
  nodup : ∀ group ∈ b.groups, group.Nodup
  disjoint : b.groups.Pairwise List.Disjoint
  /-- to be in the group of a key is an equivalence -/
  equivalence : Equivalence fun key other => other ∈ b.find key
  /-- and `find` gives equivalent keys the same list -/
  find_eq : ∀ key other, other ∈ b.find key → b.find other = b.find key

theorem Built.partition {b : Bindings} (hb : b.Built) : b.Partition where
  nodup := (List.nodup_flatten.1 hb.nodup).1
  disjoint := (List.nodup_flatten.1 hb.nodup).2
  equivalence := {
    refl := b.mem_find_self
    symm := hb.mem_find_comm
    trans := by
      intro first second third h₁ h₂
      rw [hb.find_eq_of_mem h₁] at h₂
      exact h₂ }
  find_eq := fun _ _ h => hb.find_eq_of_mem h

/-- **The order in which groups were declared does not matter to `find`.** -/
theorem find_perm {b other : Bindings} (hb : b.Built) (h : other.groups.Perm b.groups) (key : Key) :
    other.find key = b.find key := by
  rcases find_cases other key with ⟨hg, hk⟩ | ⟨he, hn⟩
  · exact (hb.find_eq_of_mem_group (h.mem_iff.1 hg) hk).symm
  · rcases find_cases b key with ⟨hg, hk⟩ | ⟨he', -⟩
    · exact absurd (List.mem_flatten_of_mem (h.mem_iff.2 hg) hk) hn
    · rw [he, he']

/-! ## Any calls -/

/-- **Calls of `bind` keep every key in one place.** After any calls, the bindings are the groups
that were fresh when their turn came. The next call succeeds exactly if its group is fresh, and
otherwise it names the first key that is met a second time and changes nothing. Groups that are read
from a text are not empty, and neither are those that are left of them. Every key is in one group at
most, `find` cuts the keys into classes, and it is the same for the same groups in any order, in
which they would all be accepted again. -/
theorem afterCalls_spec (calls : List (List Key)) :
    afterCalls calls = ⟨accepted calls⟩ ∧
      (∀ group next, (afterCalls calls).bind group = .ok next ↔
        Fresh (accepted calls) group ∧ next = ⟨accepted calls ++ [group]⟩) ∧
      (∀ group fault, (afterCalls calls).bind group = .error fault ↔
        ∃ before key after, group = before ++ key :: after ∧ fault = .duplicateBinding key ∧
          Fresh (accepted calls) before ∧ ¬ Fresh (accepted calls) (before ++ [key])) ∧
      (∀ group fault, (afterCalls calls).bind group = .error fault →
        afterCalls (calls ++ [group]) = afterCalls calls) ∧
      ((∀ group ∈ calls, ∃ text, Key.parseSet text = .ok group) → [] ∉ (afterCalls calls).groups) ∧
      (afterCalls calls).Partition ∧
      (∀ groups, groups.Perm (accepted calls) → accepted groups = groups) ∧
      ∀ others, (accepted others).Perm (accepted calls) →
        ∀ key, (afterCalls others).find key = (afterCalls calls).find key := by
  have hb := built_afterCalls calls
  have heq := afterCalls_eq calls
  have hgroups : (afterCalls calls).groups = accepted calls := by rw [heq]
  refine ⟨heq, ?_, ?_, ?_, ?_, hb.partition, ?_, ?_⟩
  · intro group next
    rw [bind_eq_ok_iff_fresh, hgroups]
  · intro group fault
    rw [bind_eq_error_iff, hgroups]
  · intro group fault hbind
    rw [afterCalls, List.foldl_append]
    show attempt (afterCalls calls) group = afterCalls calls
    rw [attempt, hbind]
  · intro hread hempty
    rw [hgroups] at hempty
    obtain ⟨text, htext⟩ := hread [] (mem_of_mem_accepted hempty)
    exact Key.ne_nil_of_parseSet htext rfl
  · intro groups hperm
    apply accepted_of_nodup
    rw [hperm.flatten.nodup_iff, ← hgroups]
    exact hb.nodup
  · intro others hperm key
    apply find_perm hb
    rw [afterCalls_eq, hgroups]
    exact hperm

/-- Groups for sizes and seeds; the second one clashes with the first. -/
def sizeCalls :
    List (List Key) := [[⟨["width"]⟩, ⟨["height"]⟩], [⟨["depth"]⟩, ⟨["width"]⟩], [⟨["seed"]⟩]]

/-- The clash leaves the depth free, a repeated seed is refused under its own name, and the sizes go
together in any order. -/
theorem afterCalls_spec_of_sizes :
    (∀ group ∈ sizeCalls, ∃ text, Key.parseSet text = .ok group) ∧
      [] ∉ (afterCalls sizeCalls).groups ∧ (afterCalls sizeCalls).bind [⟨["depth"]⟩] =
        .ok ⟨[[⟨["width"]⟩, ⟨["height"]⟩], [⟨["seed"]⟩], [⟨["depth"]⟩]]⟩ ∧
      (afterCalls sizeCalls).bind [⟨["depth"]⟩, ⟨["seed"]⟩, ⟨["height"]⟩] =
        .error (.duplicateBinding ⟨["seed"]⟩) ∧
      (accepted [[⟨["seed"]⟩], [⟨["width"]⟩, ⟨["height"]⟩]]).Perm (accepted sizeCalls) ∧
      (afterCalls [[⟨["seed"]⟩], [⟨["width"]⟩, ⟨["height"]⟩]]).find ⟨["height"]⟩ =
        (afterCalls sizeCalls).find ⟨["height"]⟩ := by
  obtain ⟨-, hok, herror, -, hread, -, -, hfind⟩ := afterCalls_spec sizeCalls
  have htexts : ∀ group ∈ sizeCalls, ∃ text, Key.parseSet text = .ok group := by
    intro group hg
    rcases List.mem_cons.1 hg with rfl | hg
    · exact ⟨"width,height", by decide +kernel⟩
    rcases List.mem_cons.1 hg with rfl | hg
    · exact ⟨"depth, width", by decide +kernel⟩
    rw [List.mem_singleton.1 hg]
    exact ⟨"seed", by decide +kernel⟩
  have hperm :
    (accepted [[⟨["seed"]⟩], [⟨["width"]⟩, ⟨["height"]⟩]]).Perm (accepted sizeCalls) := by decide
  refine ⟨htexts, hread htexts, ?_, ?_, hperm, hfind _ hperm _⟩
  · exact (hok _ _).2 ⟨by decide, rfl⟩
  · exact (herror _ _).2 ⟨[⟨["depth"]⟩], ⟨["seed"]⟩, [⟨["height"]⟩], rfl, rfl, by decide, by decide⟩

end Bindings

end Sweep
