import Sweep.Proofs.Expansion.Combinations
import Sweep.Proofs.Plan.Keys

/-!
# What a run emits

A run of a plan emits one document per combination of rows of its bind groups, in the order of their
numbers, the last group varying fastest. The three stages meet here: the path decides the groups
(`Sweep.Proofs.Plan.Keys`), the walk in place visits what the walk over copies visits
(`Sweep.Proofs.Expansion.Copies`), and that one is a loop over the combinations
(`Sweep.Proofs.Expansion.Combinations`).
-/

set_option autoImplicit false

namespace Sweep

theorem exists_choice {groups : List (List Key)} {sizes rows : List Nat}
    (hr : List.Forall₂ (· < ·) rows sizes) (hl : groups.length = sizes.length) {group : List Key}
    (hg : group ∈ groups) :
    ∃ row, (group, row) ∈ groups.zip rows := by
  obtain ⟨place, hp, rfl⟩ := List.mem_iff_getElem.1 hg
  have hrow : place < rows.length := by
    rw [hr.length_eq, ← hl]
    exact hp
  refine ⟨rows[place], List.mem_iff_getElem.2 ⟨place, ?_, List.getElem_zip⟩⟩
  rw [List.length_zip]
  exact Nat.lt_min.2 ⟨hp, hrow⟩

namespace Plan

variable {output : String} {render : List Key} {bindings : Bindings} {plan : Plan}

theorem nodup_groups (hb : bindings.Built) (h : make output render bindings = .ok plan) :
    (plan.expand.map bindings.find).flatten.Nodup := by
  rw [← List.flatMap_def]
  exact nodup_driven hb h

/-- A placeholder and all keys bound to it are chosen from one row. -/
theorem takesRow_of_placeholder (hb : bindings.Built) (h : make output render bindings = .ok plan)
    {doc leaf : Document} {sizes rows : List Nat}
    (hf : doc.Fits (plan.expand.map bindings.find) sizes) (hr : List.Forall₂ (· < ·) rows sizes)
    (hc : IsCombination doc (plan.expand.map bindings.find) rows leaf) {key : Key}
    (hk : key ∈ plan.output.keys) :
    ∃ row, doc.TakesRow leaf (bindings.find key) row := by
  obtain ⟨driver, hd, hkd⟩ := exists_driver h hk
  obtain ⟨row, hm⟩ := exists_choice hr hf.length_eq (List.mem_map_of_mem hd)
  refine ⟨row, ?_⟩
  -- the placeholder is in the group of the driver, so that group is its own
  rw [hb.find_eq_of_mem hkd]
  exact hc.takes_row _ hm

/-- The documents of a run on a document that fits, in their order. -/
def leaves (plan : Plan) (doc : Document) (sizes : List Nat) : List Document :=
  (combinations sizes).map fun rows =>
    doc.fill (choices doc (plan.expand.map plan.bindings.find) rows)

theorem run_logged {σ : Type} (hb : bindings.Built) (h : make output render bindings = .ok plan)
    {doc : Document} {sizes : List Nat} (hf : doc.Fits (plan.expand.map bindings.find) sizes)
    {sink : Sink (StateM σ)} (hs : ∀ doc s, (sink doc s).1 = (.ok (), doc)) (s : σ) :
    plan.run sink.logged doc (s, []) =
      ((.ok (), doc), (plan.leaves doc sizes).foldl (fun s leaf => (sink leaf s).2) s,
        plan.leaves doc sizes) := by
  have hback : sink.logged.Preserves := Sink.preserves_logged fun doc s => by rw [hs]
  rw [run, leaves, bindings_of_make h, Copying.expand_eq_copying hb hback,
    copying_eq_combinations hb _ hf (nodup_groups hb h)]
  show ((_, doc), _) = _
  rw [Expansion.untilFault_logged hs, List.nil_append]

theorem getElem_leaves (hb : bindings.Built) (h : make output render bindings = .ok plan)
    {doc : Document} {sizes : List Nat} (hf : doc.Fits (plan.expand.map bindings.find) sizes)
    {t : Nat} (ht : t < (plan.leaves doc sizes).length) :
    ∃ rows, List.Forall₂ (· < ·) rows sizes ∧ number sizes rows = t ∧
      IsCombination doc (plan.expand.map bindings.find) rows (plan.leaves doc sizes)[t] := by
  have htc : t < (combinations sizes).length := by
    rw [leaves, List.length_map] at ht
    exact ht
  have hr := rows_lt_of_mem_combinations (List.getElem_mem htc)
  refine ⟨(combinations sizes)[t], hr, number_getElem_combinations htc, ?_⟩
  simp only [leaves, List.getElem_map, bindings_of_make h]
  exact isCombination_fill hf (nodup_groups hb h) hr

/-- **A run emits every combination once, in the order of their numbers.** The document in place `t`
is the original with the elements of the rows of number `t` written in place and nothing else
changed; a placeholder of the path and the keys bound to it are taken from one row. -/
theorem run_emits_combinations {σ : Type} (hb : bindings.Built)
    (h : make output render bindings = .ok plan) {doc : Document} {sizes : List Nat}
    (hf : doc.Fits (plan.expand.map bindings.find) sizes) {sink : Sink (StateM σ)}
    (hs : ∀ doc s, (sink doc s).1 = (.ok (), doc)) (s : σ) :
    ∃ leaves : List Document,
      plan.run sink.logged doc (s, []) =
        ((.ok (), doc), leaves.foldl (fun s leaf => (sink leaf s).2) s, leaves) ∧
      leaves.length = sizes.prod ∧
      ∀ t (ht : t < leaves.length),
        ∃ rows, List.Forall₂ (· < ·) rows sizes ∧ number sizes rows = t ∧
        IsCombination doc (plan.expand.map bindings.find) rows leaves[t] ∧
        ∀ key ∈ plan.output.keys, ∃ row, doc.TakesRow leaves[t] (bindings.find key) row := by
  refine ⟨plan.leaves doc sizes, run_logged hb h hf hs s, ?_, fun t ht => ?_⟩
  · rw [leaves, List.length_map, length_combinations]
  · obtain ⟨rows, hr, hn, hc⟩ := getElem_leaves hb h hf ht
    exact ⟨rows, hr, hn, hc, fun key hk => takesRow_of_placeholder hb h hf hr hc hk⟩

/-- A sink that counts the documents it is handed. -/
def counting : Sink (StateM Nat) := fun doc count => ((.ok (), doc), count + 1)

/-- Two names with their sizes, and three seeds. -/
def namesAndSeeds : Document := ⟨[
  ("size", .list [.text "s", .text "l"]), ("name", .list [.text "a", .text "b"]),
  ("seed", .list [.text "x", .text "y", .text "z"])]⟩

/-- The plan of a path with a name and a seed, where the sizes go with the names. -/
def perNameAndSeed : Plan where
  output := ⟨[.placeholder ⟨["name"]⟩ none, .literal ['-'], .placeholder ⟨["seed"]⟩ none]⟩
  expand := [⟨["name"]⟩, ⟨["seed"]⟩]
  render := []
  bindings := ⟨[[⟨["name"]⟩, ⟨["size"]⟩]]⟩

/-- The document in place four has row one of names and sizes and row one of seeds. -/
theorem run_over_names_and_seeds :
    Bindings.Built ⟨[[⟨["name"]⟩, ⟨["size"]⟩]]⟩ ∧
      make "\x7bname\x7d-\x7bseed\x7d" [] ⟨[[⟨["name"]⟩, ⟨["size"]⟩]]⟩ = .ok perNameAndSeed ∧
      namesAndSeeds.Fits [[⟨["name"]⟩, ⟨["size"]⟩], [⟨["seed"]⟩]] [2, 3] ∧
      (∀ doc count, (counting doc count).1 = (.ok (), doc)) ∧
      ∃ leaves : List Document,
        perNameAndSeed.run counting.logged namesAndSeeds (0, []) =
          ((.ok (), namesAndSeeds),
            leaves.foldl (fun count leaf => (counting leaf count).2) 0, leaves) ∧
        leaves.length = 6 ∧
        leaves[4]? = some ⟨[("size", .text "l"), ("name", .text "b"), ("seed", .text "y")]⟩ := by
  have hb : Bindings.Built ⟨[[⟨["name"]⟩, ⟨["size"]⟩]]⟩ :=
    .ofGroups (show Bindings.ofGroups [[⟨["name"]⟩, ⟨["size"]⟩]] = .ok _ from rfl)
  have hm : make "\x7bname\x7d-\x7bseed\x7d" [] ⟨[[⟨["name"]⟩, ⟨["size"]⟩]]⟩ =
    .ok perNameAndSeed := by cbv
  have hf : namesAndSeeds.Fits [[⟨["name"]⟩, ⟨["size"]⟩], [⟨["seed"]⟩]] [2, 3] := by
    refine .cons (fun key hk => ?_) (.cons (fun key hk => ?_) .nil)
    · rcases List.mem_pair.1 hk with rfl | rfl <;> exact ⟨_, rfl, rfl⟩
    · obtain rfl := List.mem_singleton.1 hk
      exact ⟨_, rfl, rfl⟩
  have hs : ∀ doc count, (counting doc count).1 = (.ok (), doc) := fun _ _ => rfl
  obtain ⟨leaves, hrun, hlength, -⟩ := run_emits_combinations hb hm hf hs 0
  refine ⟨hb, hm, hf, hs, leaves, hrun, hlength, ?_⟩
  have hl : leaves = (perNameAndSeed.run counting.logged namesAndSeeds (0, [])).2.2 := by rw [hrun]
  rw [hl]
  rfl

end Plan

end Sweep
