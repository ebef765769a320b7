import Sweep.Proofs.Expansion.Calls
import Sweep.Proofs.Expansion.Levels
import Sweep.Proofs.Plan.Enumeration

/-!
# Faults of shape come before output

A level checks its arrays when the walk reaches it, which may be behind many leaves, and on a
document into which the levels above have written. If no driven key leads through another one, this
makes no difference: whatever is written at a driven key is not seen from the others, so every level
finds the arrays of the *original* document, on every row. All checks can then be thought of as made
at the start, one level after the other (`levelChecks`), and

> `itinerary_of_apart`: a walk either has a fault of shape and no leaves at all, or no fault.

Which fault it is can be read off the document: that of the first level that is out of shape
(`FirstDefect`). An array without elements ends the checks as it ends the walk, so a level behind it
may be in any shape.
-/

set_option autoImplicit false

namespace Sweep

/-- No key leads through another one. -/
def Key.Unnested (keys : List Key) : Prop :=
  ∀ outer ∈ keys, ∀ inner ∈ keys, outer.segments <+: inner.segments → outer = inner

theorem Key.Unnested.apart {keys : List Key} (h : Key.Unnested keys) (hd : keys.Nodup) :
    keys.Pairwise Key.Apart := by
  refine List.Pairwise.imp_of_mem (fun {key other} hk ho hne => ?_) hd
  constructor
  · intro hp
    exact hne (h key hk other ho hp)
  · intro hp
    exact hne (h other ho key hk hp).symm

namespace Expansion

/-! ## All levels on one document -/

/-- The checks of all levels, made on one document; an array without elements ends them. -/
def levelChecks (bindings : Bindings) (doc : Document) : List Key → Outcome
  | [] => .ok ()
  | head :: rest =>
    match groupLength bindings doc head with
    | .error fault => .error fault
    | .ok 0 => .ok ()
    | .ok (_ + 1) => levelChecks bindings doc rest

/-- The fault of the first level that is out of shape; the levels before it have elements to go
through. -/
def FirstDefect (bindings : Bindings) (doc : Document) (keys : List Key) (fault : Fault) : Prop :=
  ∃ front head back, keys = front ++ head :: back ∧
    (∀ earlier ∈ front, ∃ length, 0 < length ∧ doc.HoldsArrays (bindings.find earlier) length) ∧
    Misshapen bindings doc head fault

theorem firstDefect_cons_iff (bindings : Bindings) (doc : Document) (head : Key) (rest : List Key)
    (fault : Fault) :
    FirstDefect bindings doc (head :: rest) fault ↔
      Misshapen bindings doc head fault ∨
        (∃ length, 0 < length ∧ doc.HoldsArrays (bindings.find head) length) ∧
        FirstDefect bindings doc rest fault := by
  constructor
  · rintro ⟨front, key, back, hk, hf, hm⟩
    cases front with
    | nil =>
      obtain ⟨rfl, rfl⟩ := List.cons.inj hk
      exact .inl hm
    | cons first front =>
      obtain ⟨rfl, rfl⟩ := List.cons.inj hk
      obtain ⟨hh, hf⟩ := List.forall_mem_cons.1 hf
      exact .inr ⟨hh, front, key, back, rfl, hf, hm⟩
  · rintro (hm | ⟨hh, front, key, back, rfl, hf, hm⟩)
    · exact ⟨[], head, rest, rfl, by simp, hm⟩
    · exact ⟨head :: front, key, back, rfl, List.forall_mem_cons.2 ⟨hh, hf⟩, hm⟩

theorem levelChecks_eq_error_iff (bindings : Bindings) (doc : Document) (keys : List Key)
    (fault : Fault) :
    levelChecks bindings doc keys = .error fault ↔ FirstDefect bindings doc keys fault := by
  induction keys with
  | nil => simp [levelChecks, FirstDefect]
  | cons head rest ih =>
    rw [firstDefect_cons_iff, ← groupLength_eq_error_iff, ← ih, levelChecks]
    simp only [← Copying.groupLength_eq_ok_iff]
    cases groupLength bindings doc head with
    | error other => simp
    | ok length =>
      cases length with
      | zero => simp
      | succ length => simp

section Congr

variable {doc doc' : Document}

theorem arrayLength_congr {key : Key} (h : doc'.get key = doc.get key) :
    arrayLength doc' key = arrayLength doc key := by
  rw [arrayLength, arrayLength, h]

theorem checkMembers_congr {members : List Key} (h : ∀ key ∈ members, doc'.get key = doc.get key)
    (head : Key) (length : Nat) :
    checkMembers doc' head length members = checkMembers doc head length members := by
  induction members with
  | nil => rfl
  | cons key rest ih =>
    obtain ⟨hk, hr⟩ := List.forall_mem_cons.1 h
    rw [checkMembers, checkMembers, arrayLength_congr hk, ih hr]

theorem groupLength_congr {bindings : Bindings} {head : Key}
    (h : ∀ key ∈ bindings.find head, doc'.get key = doc.get key) :
    groupLength bindings doc' head = groupLength bindings doc head := by
  have hothers : ∀ key ∈ bindings.others head, doc'.get key = doc.get key := fun key hk =>
    h key ((bindings.mem_others_iff head key).1 hk).1
  rw [groupLength, groupLength, arrayLength_congr (h head (bindings.mem_find_self head))]
  simp only [checkMembers_congr hothers]

theorem levelChecks_congr {bindings : Bindings} {keys : List Key}
    (h : ∀ key ∈ keys.flatMap bindings.find, doc'.get key = doc.get key) :
    levelChecks bindings doc' keys = levelChecks bindings doc keys := by
  induction keys with
  | nil => rfl
  | cons head rest ih =>
    rw [List.flatMap_cons, List.forall_mem_append] at h
    rw [levelChecks, levelChecks, groupLength_congr h.1, ih h.2]

end Congr

/-! ## The walk -/

/-- The levels below look at keys that no row is written at. -/
theorem levelChecks_of_row {bindings : Bindings} {doc next : Document} {keys rest : List Key}
    {row : Nat} (h : IsRow doc keys row next)
    (ha : ∀ member ∈ keys, ∀ key ∈ rest.flatMap bindings.find, member.Apart key) :
    levelChecks bindings next rest = levelChecks bindings doc rest :=
  levelChecks_congr fun key hk => h.get_of_apart fun member hm => ha member hm key hk

/-- **Where no driven key leads through another one, a walk with a fault of shape has no leaves**:
it ends as the checks of the original document do. -/
theorem itinerary_of_apart {bindings : Bindings} (hb : bindings.Built) {keys : List Key}
    (doc : Document) (hp : (keys.flatMap bindings.find).Pairwise Key.Apart) :
    (itinerary bindings keys doc).ending = levelChecks bindings doc keys ∧
      ∀ fault, levelChecks bindings doc keys = .error fault →
        (itinerary bindings keys doc).leaves = [] := by
  induction keys generalizing doc with
  | nil => exact ⟨rfl, by simp [levelChecks]⟩
  | cons head rest ih =>
    rw [List.flatMap_cons, List.pairwise_append] at hp
    obtain ⟨-, hrest, hcross⟩ := hp
    cases hg : groupLength bindings doc head with
    | error fault =>
      have hway : itinerary bindings (head :: rest) doc = ⟨[], .error fault⟩ := by
        rw [itinerary, hg]
      rw [hway, levelChecks, hg]
      exact ⟨rfl, fun _ _ => rfl⟩
    | ok length =>
      have hfits := (Copying.groupLength_eq_ok_iff bindings doc head length).1 hg
      have hrow : ∀ row < length,
          levelChecks bindings (doc.fill (Copying.rowAt doc (bindings.find head) row)) rest =
          levelChecks bindings doc rest := fun row hr =>
        levelChecks_of_row ⟨hb.nodup_find head, ⟨length, hfits, hr⟩, rfl⟩ hcross
      rw [itinerary_cons_of_fits hb hfits rest, levelChecks, hg]
      cases length with
      | zero => exact ⟨rfl, by simp⟩
      | succ length =>
        dsimp only
        cases hc : levelChecks bindings doc rest with
        | error fault =>
          -- the first row meets the fault, and has no leaves in front of it
          have hfirst := hrow 0 (Nat.succ_pos length)
          rw [hc] at hfirst
          obtain ⟨hending, hleaves⟩ :=
            ih (doc.fill (Copying.rowAt doc (bindings.find head) 0)) hrest
          rw [hfirst] at hending hleaves
          rw [List.range_succ_eq_map, List.map_cons, Itinerary.join_cons_of_error hending]
          exact ⟨hending, fun _ _ => hleaves fault rfl⟩
        | ok done =>
          refine ⟨Itinerary.ending_join_of_ok fun part hm => ?_, by simp⟩
          obtain ⟨row, hr, rfl⟩ := List.mem_map.1 hm
          rw [(ih _ hrest).1, hrow row (List.mem_range.1 hr), hc]

end Expansion

/-! ## A run -/

namespace Plan

open Expansion

variable {output : String} {render : List Key} {bindings : Bindings} {plan : Plan}

/-- **Faults of shape come before output.** If no driven key leads through another one, a fault that
is not the sink's is found before the sink is called at all. It is the first defect of the original
document; and a sink that refuses nothing leaves no other fault to a run. -/
theorem shape_faults_before_output {σ : Type} (hb : bindings.Built)
    (h : make output render bindings = .ok plan)
    (hu : Key.Unnested (plan.expand.flatMap bindings.find)) {sink : Sink (StateM σ)}
    (hs : sink.Preserves) (doc : Document) (s : σ) :
    ∃ outcome final calls, plan.run sink doc s = ((outcome, doc), final) ∧
      plan.run sink.watched doc (s, []) = ((outcome, doc), (final, calls)) ∧
      (∀ fault, outcome = .error fault → (∀ call ∈ calls, call.answer ≠ .error fault) →
        calls = [] ∧ FirstDefect bindings doc plan.expand fault) ∧
      ((∀ doc s, (sink doc s).1.1 = .ok ()) →
        ∀ fault, outcome = .error fault ↔ FirstDefect bindings doc plan.expand fault) := by
  obtain ⟨outcome, final, calls, hplain, hrun, hcalls⟩ :=
    expand_watched hs plan.bindings plan.expand doc s
  obtain ⟨hending, hleaves⟩ := itinerary_of_apart hb doc (hu.apart (nodup_driven hb h))
  rw [bindings_of_make h] at hcalls
  refine ⟨outcome, final, calls, hplain, hrun, fun fault hf hne => ?_, fun hok fault => ?_⟩
  · rcases hcalls.of_error hf with ⟨call, hc, ha⟩ | ⟨-, he⟩
    · exact absurd ha (hne call hc)
    · rw [hending] at he
      refine ⟨?_, (levelChecks_eq_error_iff bindings doc plan.expand fault).1 he⟩
      -- what was called is a leaf, and there are none
      refine List.eq_nil_iff_forall_not_mem.2 fun call hc => ?_
      have hm := (hcalls.of_mem hc).1
      rw [hleaves fault he] at hm
      exact absurd hm (by simp)
  · have hall : ∀ call ∈ calls, call.answer = .ok () := by
      intro call hc
      obtain ⟨s, ha⟩ := (hcalls.of_mem hc).2
      rw [ha]
      exact hok call.document s
    rw [(hcalls.all_taken hall).2, hending, levelChecks_eq_error_iff]

/-- Two names with their sizes, and a seed that is no array. -/
def oneSeed : Document := ⟨[
  ("size", .list [.text "s", .text "l"]), ("name", .list [.text "a", .text "b"]),
  ("seed", .text "x")]⟩

/-- The seed is measured on the row of the first name, and no document has been handed over by
then. -/
theorem shape_fault_of_one_seed :
    Bindings.Built ⟨[[⟨["name"]⟩, ⟨["size"]⟩]]⟩ ∧
      make "\x7bname\x7d-\x7bseed\x7d" [] ⟨[[⟨["name"]⟩, ⟨["size"]⟩]]⟩ = .ok perNameAndSeed ∧
      Key.Unnested [⟨["name"]⟩, ⟨["size"]⟩, ⟨["seed"]⟩] ∧ counting.Preserves ∧
      perNameAndSeed.run counting.watched oneSeed (0, []) =
        ((.error (.expectedArray ⟨["seed"]⟩), oneSeed), (0, [])) ∧
      FirstDefect ⟨[[⟨["name"]⟩, ⟨["size"]⟩]]⟩
        oneSeed [⟨["name"]⟩, ⟨["seed"]⟩] (.expectedArray ⟨["seed"]⟩) := by
  have hb : Bindings.Built ⟨[[⟨["name"]⟩, ⟨["size"]⟩]]⟩ :=
    .ofGroups (show Bindings.ofGroups [[⟨["name"]⟩, ⟨["size"]⟩]] = .ok _ from rfl)
  have hm : make "\x7bname\x7d-\x7bseed\x7d" [] ⟨[[⟨["name"]⟩, ⟨["size"]⟩]]⟩ =
    .ok perNameAndSeed := by cbv
  have hu : Key.Unnested [⟨["name"]⟩, ⟨["size"]⟩, ⟨["seed"]⟩] := by
    unfold Key.Unnested
    decide
  have hs : counting.Preserves := (Sink.preserves_iff counting).2 fun _ _ => rfl
  have hrun : perNameAndSeed.run counting.watched oneSeed (0, []) =
      ((.error (.expectedArray ⟨["seed"]⟩), oneSeed), (0, [])) := rfl
  obtain ⟨outcome, final, calls, -, hw, hfirst, -⟩ :=
    shape_faults_before_output hb hm hu hs oneSeed 0
  rw [hrun] at hw
  cases hw
  exact ⟨hb, hm, hu, hs, hrun, (hfirst _ rfl (by simp)).2⟩

end Plan

end Sweep
