import Sweep.Proofs.Expansion.Levels
import Sweep.Proofs.Plan.Keys

/-!
# Templates among the values

The check of a plan asks one document, before anything is expanded: every key to render must hold a
template or an array of templates (`check_eq_ok_iff`). What is rendered later are the values of the
leaves. This file brings the two together along the walk.

* Down the levels, a key that holds templates goes on to do so (`holdsTemplates_of_leaf`): such a
  key holds no table, so a row either is written elsewhere, or puts one of the templates in the
  place of the array.
* Back up, a text that a leaf holds was there to begin with (`text_of_leaf`), at the same key: by
  itself, or as one of the elements of an array. This takes that no key is expanded twice.
-/

set_option autoImplicit false

namespace Sweep

open Expansion

namespace Value

/-- A text that compiles. -/
def IsTemplate (value : Value) : Prop :=
  ∃ source template, value = .text source ∧ Template.compile source = .ok template

/-- A template or an array of templates. -/
def HoldsTemplates (value : Value) : Prop :=
  value.IsTemplate ∨ ∃ items, value = .list items ∧ ∀ item ∈ items, item.IsTemplate

theorem IsTemplate.isLeaf {value : Value} (h : value.IsTemplate) : value.IsLeaf := by
  obtain ⟨source, template, rfl, -⟩ := h
  simp [IsLeaf]

theorem HoldsTemplates.isLeaf {value : Value} (h : value.HoldsTemplates) : value.IsLeaf := by
  rcases h with h | ⟨items, rfl, -⟩
  · exact h.isLeaf
  · simp [IsLeaf]

theorem isLeaf_or_table (value : Value) : value.IsLeaf ∨ ∃ entries, value = .table entries := by
  cases value with
  | table entries => exact .inr ⟨entries, rfl⟩
  | _ =>
    left
    simp [IsLeaf]

end Value

/-- Every one of some keys holds a template or an array of templates. -/
def Document.HoldsTemplates (doc : Document) (keys : List Key) : Prop :=
  ∀ key ∈ keys, ∃ held, doc.get key = .ok held ∧ held.HoldsTemplates

namespace Plan

/-! ## The check -/

theorem checkTemplate_eq_ok_iff (key : Key) (value : Value) :
    checkTemplate key value = .ok () ↔ value.IsTemplate := by
  cases value with
  | text source =>
    rw [checkTemplate]
    cases hc : Template.compile source with
    | error fault =>
      simp only [reduceCtorEq, false_iff]
      rintro ⟨other, template, he, ht⟩
      cases he
      rw [hc] at ht
      exact absurd ht (by simp)
    | ok template => exact iff_of_true rfl ⟨source, template, rfl, hc⟩
  | _ => simp [checkTemplate, Value.IsTemplate]

theorem checkTemplates_eq_ok_iff (key : Key) (values : List Value) :
    checkTemplates key values = .ok () ↔ ∀ value ∈ values, value.IsTemplate := by
  induction values with
  | nil => simp [checkTemplates]
  | cons value rest ih =>
    rw [checkTemplates, List.forall_mem_cons, ← ih, ← checkTemplate_eq_ok_iff key]
    cases checkTemplate key value with
    | error fault => simp
    | ok done => simp

/-- The check of the value at a key. -/
def checkValue (key : Key) : Value → Outcome
  | .list values => checkTemplates key values
  | value => checkTemplate key value

theorem checkValue_eq_ok_iff (key : Key) (value : Value) :
    checkValue key value = .ok () ↔ value.HoldsTemplates := by
  cases value with
  | list items =>
    simp [checkValue, checkTemplates_eq_ok_iff, Value.HoldsTemplates, Value.IsTemplate]
  | _ => simp [checkValue, checkTemplate_eq_ok_iff, Value.HoldsTemplates]

theorem checkKeys_cons (doc : Document) (key : Key) (rest : List Key) :
    checkKeys doc (key :: rest) =
      match doc.get key with
      | .error fault => .error fault
      | .ok held =>
        match checkValue key held with
        | .error fault => .error fault
        | .ok () => checkKeys doc rest := rfl

theorem checkKeys_eq_ok_iff (doc : Document) (keys : List Key) :
    checkKeys doc keys = .ok () ↔ doc.HoldsTemplates keys := by
  induction keys with
  | nil => simp [checkKeys, Document.HoldsTemplates]
  | cons key rest ih =>
    rw [checkKeys_cons, Document.HoldsTemplates, List.forall_mem_cons,
      ← Document.HoldsTemplates, ← ih]
    cases doc.get key with
    | error fault => simp
    | ok held =>
      simp only [Except.ok.injEq, exists_eq_left', ← checkValue_eq_ok_iff key held]
      cases checkValue key held with
      | error fault => simp
      | ok done => simp

/-- **The check asks for templates and arrays of templates.** -/
theorem check_eq_ok_iff (plan : Plan) (doc : Document) :
    plan.check doc = .ok () ↔ doc.HoldsTemplates plan.render :=
  checkKeys_eq_ok_iff doc plan.render

theorem nodup_render {output : String} {render : List Key} {bindings : Bindings} {plan : Plan}
    (h : make output render bindings = .ok plan) : plan.render.Nodup := by
  obtain ⟨template, -, rfl⟩ := (make_eq_ok_iff output render bindings plan).1 h
  exact nodup_distinct List.nodup_nil render

end Plan

/-! ## Down the levels -/

theorem Document.HoldsTemplates.row {doc next : Document} {keys group : List Key} {row : Nat}
    (h : doc.HoldsTemplates keys) (hr : IsRow doc group row next) : next.HoldsTemplates keys := by
  intro key hk
  obtain ⟨held, hg, hheld⟩ := h key hk
  by_cases hm : key ∈ group
  · obtain ⟨items, item, hi, hitem, hn⟩ := hr.takesRow key hm
    rw [hg] at hi
    cases hi
    refine ⟨item, hn, .inl ?_⟩
    rcases hheld with ⟨source, template, he, -⟩ | ⟨others, he, hall⟩
    · exact absurd he (by simp)
    · cases he
      exact hall item (List.mem_of_getElem? hitem)
  · exact ⟨held, hr.get_of_notMem hg hheld.isLeaf hm, hheld⟩

/-- **What held templates holds templates in every leaf.** -/
theorem holdsTemplates_of_leaf {bindings : Bindings} (hb : bindings.Built) {keys render : List Key}
    {doc leaf : Document} (h : doc.HoldsTemplates render)
    (hl : leaf ∈ (itinerary bindings keys doc).leaves) : leaf.HoldsTemplates render :=
  leaves_induction hb (P := fun doc => doc.HoldsTemplates render)
    (fun _ _ _ _ hr h => h.row hr) h hl

/-! ## Back up -/

section Text

variable {bindings : Bindings} {keys : List Key} {key : Key} {doc leaf : Document} {held : Value}
    {text : String}

/-- A text at a key that is not expanded was there to begin with. -/
theorem text_of_leaf_of_notMem (hb : bindings.Built) (hk : key ∉ keys.flatMap bindings.find)
    (hl : leaf ∈ (itinerary bindings keys doc).leaves) (h : doc.get key = .ok held)
    (ht : leaf.get key = .ok (.text text)) :
    held = .text text := by
  induction keys generalizing doc held with
  | nil =>
    rw [itinerary, List.mem_singleton] at hl
    rw [hl, h] at ht
    exact Except.ok.inj ht
  | cons head rest ih =>
    rw [List.flatMap_cons, List.mem_append, not_or] at hk
    obtain ⟨row, next, hr, hl⟩ := mem_leaves_cons hb hl
    rcases held.isLeaf_or_table with hleaf | ⟨entries, rfl⟩
    · exact ih hk.2 hl (hr.get_of_notMem h hleaf hk.1)
    · obtain ⟨changed, hn⟩ := hr.table h
      exact absurd (ih hk.2 hl hn) (by simp)

/-- **A text in a leaf was there to begin with**, by itself or in an array. -/
theorem text_of_leaf (hb : bindings.Built) (hd : (keys.flatMap bindings.find).Nodup)
    (hl : leaf ∈ (itinerary bindings keys doc).leaves) (h : doc.get key = .ok held)
    (ht : leaf.get key = .ok (.text text)) :
    held = .text text ∨ ∃ items, held = .list items ∧ .text text ∈ items := by
  induction keys generalizing doc held with
  | nil => exact .inl (text_of_leaf_of_notMem hb (by simp) hl h ht)
  | cons head rest ih =>
    rw [List.flatMap_cons, List.nodup_append'] at hd
    obtain ⟨row, next, hr, hl⟩ := mem_leaves_cons hb hl
    by_cases hm : key ∈ bindings.find head
    · -- the array is taken here, and its element stays where it is put
      obtain ⟨items, item, hi, hitem, hn⟩ := hr.takesRow key hm
      rw [h] at hi
      cases hi
      have he := text_of_leaf_of_notMem hb (hd.2.2 hm) hl hn ht
      refine .inr ⟨items, rfl, ?_⟩
      rw [← he]
      exact List.mem_of_getElem? hitem
    · rcases held.isLeaf_or_table with hleaf | ⟨entries, rfl⟩
      · exact ih hd.2.1 hl (hr.get_of_notMem h hleaf hm)
      · obtain ⟨changed, hn⟩ := hr.table h
        rcases ih hd.2.1 hl hn with he | ⟨items, he, -⟩
        · exact absurd he (by simp)
        · exact absurd he (by simp)

end Text

end Sweep
