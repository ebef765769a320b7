import Sweep.Plan
import Sweep.Proofs.Bindings.Drivers
import Sweep.Proofs.Except

/-!
# The keys of a plan

A plan goes through its output path twice: once to compile it, once to extract the keys to expand.
The two agree (`extractKeys_of_compile`): on a text that compiles, the extraction finds the keys of
the compiled placeholders, each once and in the order of their first appearance. So a plan exists
exactly if its path compiles (`make_eq_ok_iff`), and every placeholder of the path is in the group
of one key that the plan expands, and of no other (`expand_covers_path`).
-/

set_option autoImplicit false

namespace Sweep

namespace Plan

/-! ## Keys without repeats -/

theorem mem_distinct_iff (seen keys : List Key) (key : Key) :
    key ∈ distinct seen keys ↔ key ∈ seen ∨ key ∈ keys := by
  induction keys generalizing seen with
  | nil => simp [distinct]
  | cons first rest ih =>
    rw [distinct, ih, List.mem_cons]
    split
    · -- a repeat adds nothing
      rename_i hc
      have hf : first ∈ seen := List.contains_iff_mem.1 hc
      constructor
      · rintro (hs | hr)
        · exact .inl hs
        · exact .inr (.inr hr)
      · rintro (hs | rfl | hr)
        · exact .inl hs
        · exact .inl hf
        · exact .inr hr
    · rw [List.mem_append, List.mem_singleton, or_assoc]

theorem nodup_distinct {seen : List Key} (hs : seen.Nodup) (keys : List Key) :
    (distinct seen keys).Nodup := by
  induction keys generalizing seen with
  | nil => exact hs
  | cons first rest ih =>
    rw [distinct]
    split
    · exact ih hs
    · rename_i hc
      refine ih (List.nodup_append'.2 ⟨hs, List.nodup_singleton first, fun key hk he => ?_⟩)
      rw [List.mem_singleton] at he
      exact hc (List.contains_iff_mem.2 (he ▸ hk))

/-- **Only the first of equal keys stays.** The keys seen before count as first ones. -/
theorem distinct_eq (seen keys : List Key) :
    distinct seen keys = seen ++ (keys.filter fun key => !seen.contains key).eraseDups := by
  induction keys generalizing seen with
  | nil => simp [distinct]
  | cons first rest ih =>
    rw [distinct]
    cases hc : seen.contains first with
    | true =>
      rw [if_pos rfl, ih, List.filter_cons_of_neg (by rw [hc]; decide)]
    | false =>
      -- counting the first key among the seen ones is striking out its repeats
      have hrest : (rest.filter fun key => !(seen ++ [first]).contains key) =
          (rest.filter fun key => !seen.contains key).filter fun key => !(key == first) := by
        rw [List.filter_filter]
        refine List.filter_congr fun key _ => ?_
        rw [List.contains_append, Bool.not_or, Bool.and_comm, List.contains_cons, List.contains_nil,
          Bool.or_false]
      rw [if_neg Bool.false_ne_true, ih, List.filter_cons_of_pos (by rw [hc]; decide),
        List.eraseDups_cons, hrest, List.append_assoc, List.singleton_append]

theorem distinct_nil_eq (keys : List Key) : distinct [] keys = keys.eraseDups := by
  rw [distinct_eq, List.nil_append]
  exact congrArg _ (List.filter_eq_self.2 fun _ _ => rfl)

end Plan

namespace Template

/-! ## Two scans of one text -/

theorem keys_compileLiteral {text : List Char} {parts : List Part}
    (h : compileLiteral text = .ok parts) :
    parts.filterMap Part.key? = [] := by
  rw [compileLiteral] at h
  split at h
  · cases h
    split <;> rfl
  · exact absurd h (by simp)

theorem key_compilePlaceholder {placeholder : Placeholder} {part : Part}
    (h : compilePlaceholder placeholder = .ok part) :
    ∃ key, Key.parse placeholder.key = .ok key ∧ part.key? = some key := by
  rw [compilePlaceholder] at h
  rw [Key.parse]
  cases hk : Key.read placeholder.key with
  | error why =>
    rw [hk] at h
    exact absurd h (by simp)
  | ok key =>
    rw [hk] at h
    refine ⟨key, rfl, ?_⟩
    dsimp only at h
    split at h
    · cases h
      rfl
    · split at h
      · exact absurd h (by simp)
      · cases h
        rfl

theorem keysOfMarked_of_compileMarked {tail : List Char} {marked : List (List Char × Placeholder)}
    {parts : List Part} (h : compileMarked tail marked = .ok parts) (seen : List Key) :
    keysOfMarked seen marked = .ok (Plan.distinct seen (parts.filterMap Part.key?)) := by
  induction marked generalizing parts seen with
  | nil =>
    rw [compileMarked] at h
    rw [keys_compileLiteral h]
    rfl
  | cons mark rest ih =>
    rw [compileMarked] at h
    obtain ⟨before, hl, h⟩ := Except.bind_eq_ok_iff.1 h
    obtain ⟨part, hp, h⟩ := Except.bind_eq_ok_iff.1 h
    obtain ⟨after, hr, h⟩ := Except.bind_eq_ok_iff.1 h
    cases h
    obtain ⟨key, hk, hpart⟩ := key_compilePlaceholder hp
    rw [keysOfMarked, hk, List.filterMap_append, keys_compileLiteral hl, List.nil_append,
      List.filterMap_cons_some hpart, Plan.distinct]
    exact ih hr _

/-- **The extraction finds the placeholders of the compiled path**, each key once. -/
theorem extractKeys_of_compile {text : String} {template : Template}
    (h : compile text = .ok template) :
    extractKeys text = .ok (Plan.distinct [] template.keys) := by
  rw [compile] at h
  split at h
  · rename_i parts hm
    cases h
    exact keysOfMarked_of_compileMarked hm []
  · exact absurd h (by simp)

end Template

namespace Plan

/-- A plan is made exactly if its path compiles; nothing else can fail. -/
theorem make_eq_ok_iff (output : String) (render : List Key) (bindings : Bindings) (plan : Plan) :
    make output render bindings = .ok plan ↔
      ∃ template, Template.compile output = .ok template ∧
        plan = ⟨template, bindings.drivers (distinct [] template.keys), distinct [] render,
          bindings⟩ := by
  rw [make]
  cases hc : Template.compile output with
  | error fault => simp
  | ok template =>
    simp only [Template.extractKeys_of_compile hc, Except.ok.injEq, exists_eq_left', eq_comm]

/-- A plan fails to be made exactly as its path fails to compile, and with the same fault. -/
theorem make_eq_error_iff (output : String) (render : List Key) (bindings : Bindings)
    (fault : Fault) :
    make output render bindings = .error fault ↔ Template.compile output = .error fault := by
  rw [make]
  cases hc : Template.compile output with
  | error other => simp
  | ok template => simp only [Template.extractKeys_of_compile hc, reduceCtorEq]

theorem nodup_driven {output : String} {render : List Key} {bindings : Bindings}
    (hb : bindings.Built) {plan : Plan} (h : make output render bindings = .ok plan) :
    (plan.expand.flatMap bindings.find).Nodup := by
  obtain ⟨template, -, rfl⟩ := (make_eq_ok_iff output render bindings plan).1 h
  exact hb.nodup_driven (nodup_distinct List.nodup_nil _)

/-- Every placeholder of the path is in a group that the plan expands. -/
theorem exists_driver {output : String} {render : List Key} {bindings : Bindings} {plan : Plan}
    (h : make output render bindings = .ok plan) {key : Key} (hk : key ∈ plan.output.keys) :
    ∃ driver ∈ plan.expand, key ∈ bindings.find driver := by
  obtain ⟨template, -, rfl⟩ := (make_eq_ok_iff output render bindings plan).1 h
  exact bindings.exists_driver (nodup_distinct List.nodup_nil _)
    ((mem_distinct_iff [] _ key).2 (.inr hk))

theorem nodup_expand {output : String} {render : List Key} {bindings : Bindings} {plan : Plan}
    (h : make output render bindings = .ok plan) : plan.expand.Nodup := by
  obtain ⟨template, -, rfl⟩ := (make_eq_ok_iff output render bindings plan).1 h
  exact bindings.nodup_drivers (nodup_distinct List.nodup_nil _)

/-- A plan expands nothing but placeholders of its path. -/
theorem mem_keys_of_mem_expand {output : String} {render : List Key} {bindings : Bindings}
    {plan : Plan} (h : make output render bindings = .ok plan) {driver : Key}
    (hd : driver ∈ plan.expand) : driver ∈ plan.output.keys := by
  obtain ⟨template, -, rfl⟩ := (make_eq_ok_iff output render bindings plan).1 h
  have hm := bindings.mem_of_mem_drivers (nodup_distinct List.nodup_nil _) hd
  exact ((mem_distinct_iff [] _ driver).1 hm).resolve_left List.not_mem_nil

/-- **No placeholder is in the groups of two keys that a plan expands.** -/
theorem driver_unique {output : String} {render : List Key} {bindings : Bindings}
    (hb : bindings.Built) {plan : Plan} (h : make output render bindings = .ok plan)
    {first second key : Key} (hf : first ∈ plan.expand) (hs : second ∈ plan.expand)
    (hkf : key ∈ bindings.find first) (hks : key ∈ bindings.find second) :
    first = second := by
  obtain ⟨template, -, rfl⟩ := (make_eq_ok_iff output render bindings plan).1 h
  exact hb.driver_unique (nodup_distinct List.nodup_nil _) hf hs hkf hks

theorem bindings_of_make {output : String} {render : List Key} {bindings : Bindings} {plan : Plan}
    (h : make output render bindings = .ok plan) : plan.bindings = bindings := by
  obtain ⟨template, -, rfl⟩ := (make_eq_ok_iff output render bindings plan).1 h
  rfl

theorem built_bindings {output : String} {render : List Key} {bindings : Bindings}
    (hb : bindings.Built) {plan : Plan} (h : make output render bindings = .ok plan) :
    plan.bindings.Built := by
  rw [bindings_of_make h]
  exact hb

/-! ## The path and its plan -/

/-- **The plan of a path covers the path.** A path that compiles has its keys extracted: those of
the compiled placeholders, the first of equal ones each, in their order. So there is a plan exactly
if the path compiles, and otherwise the fault is that of compiling. What the plan expands are
placeholders of the path, each once, and every placeholder is in the group of exactly one of
them. -/
theorem expand_covers_path (output : String) (render : List Key) {bindings : Bindings}
    (hb : bindings.Built) :
    (∀ template, Template.compile output = .ok template →
        Template.extractKeys output = .ok template.keys.eraseDups) ∧
      (∀ fault, make output render bindings = .error fault ↔
        Template.compile output = .error fault) ∧
      ∀ plan, make output render bindings = .ok plan →
        Template.compile output = .ok plan.output ∧ plan.expand.Nodup ∧
          (∀ driver ∈ plan.expand, driver ∈ plan.output.keys) ∧
          ∀ key ∈ plan.output.keys, ∃! driver, driver ∈ plan.expand ∧
          key ∈ bindings.find driver := by
  refine ⟨fun template hc => ?_, make_eq_error_iff output render bindings,
    fun plan h => ⟨?_, ?_, ?_, ?_⟩⟩
  · rw [Template.extractKeys_of_compile hc, distinct_nil_eq]
  · obtain ⟨template, hc, rfl⟩ := (make_eq_ok_iff output render bindings plan).1 h
    exact hc
  · exact nodup_expand h
  · exact fun driver hd => mem_keys_of_mem_expand h hd
  · intro key hk
    obtain ⟨driver, hd, hin⟩ := exists_driver h hk
    refine ⟨driver, ⟨hd, hin⟩, ?_⟩
    rintro other ⟨ho, hother⟩
    exact driver_unique hb h ho hd hother hin

/-- The plan of a path with the width twice, once with space in it, and the height that goes with
it. -/
def perSize : Plan where
  output :=
    ⟨[.placeholder ⟨["width"]⟩ none, .literal ['x'], .placeholder ⟨["height"]⟩ none, .literal ['/'],
    .placeholder ⟨["width"]⟩ none, .literal ['-'], .placeholder ⟨["seed"]⟩ none]⟩
  expand := [⟨["width"]⟩, ⟨["seed"]⟩]
  render := []
  bindings := ⟨[[⟨["height"]⟩, ⟨["width"]⟩]]⟩

/-- The width is expanded for itself and for the height. -/
theorem expand_covers_path_of_sizes :
    Bindings.Built ⟨[[⟨["height"]⟩, ⟨["width"]⟩]]⟩ ∧
      make "\x7bwidth\x7dx\x7bheight\x7d/\x7b width \x7d-\x7bseed\x7d" []
        ⟨[[⟨["height"]⟩, ⟨["width"]⟩]]⟩ = .ok perSize ∧
      Template.extractKeys "\x7bwidth\x7dx\x7bheight\x7d/\x7b width \x7d-\x7bseed\x7d" =
        .ok [⟨["width"]⟩, ⟨["height"]⟩, ⟨["seed"]⟩] ∧
      ∃! driver, driver ∈ perSize.expand ∧
        ⟨["height"]⟩ ∈ Bindings.find ⟨[[⟨["height"]⟩, ⟨["width"]⟩]]⟩ driver := by
  have hb : Bindings.Built ⟨[[⟨["height"]⟩, ⟨["width"]⟩]]⟩ :=
    .ofGroups (show Bindings.ofGroups [[⟨["height"]⟩, ⟨["width"]⟩]] = .ok _ from rfl)
  have hm :
      make "\x7bwidth\x7dx\x7bheight\x7d/\x7b width \x7d-\x7bseed\x7d" []
        ⟨[[⟨["height"]⟩, ⟨["width"]⟩]]⟩ =
      .ok perSize := by cbv
  obtain ⟨hextract, -, hplan⟩ :=
    expand_covers_path "\x7bwidth\x7dx\x7bheight\x7d/\x7b width \x7d-\x7bseed\x7d" [] hb
  obtain ⟨hcompile, -, -, hunique⟩ := hplan perSize hm
  exact ⟨hb, hm, hextract _ hcompile, hunique ⟨["height"]⟩ (by decide)⟩

end Plan

end Sweep
