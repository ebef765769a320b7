import Sweep.Proofs.Delivery.Site
import Sweep.Proofs.Document.Lens
import Sweep.Proofs.Expansion.Calls
import Sweep.Proofs.Plan.Templates

/-!
# Templates at a leaf

A leaf is rendered one key after the other, each value a text of its own by then. Two keys that hold
templates are apart, so what is rendered at one of them is not seen at the other, in whatever order
they come. Therefore

* a leaf whose values to render are templates can have many faults, but none that says of a text
  that it is no template (`not_isUpFront_of_visit`);
* a leaf that is delivered had templates at all keys to render (`isTemplate_of_visit`).

The faults that are to be found before a run are called `Fault.IsUpFront`: a key that is bound
twice, and a text that is no template.
-/

set_option autoImplicit false

namespace Sweep

open Expansion

/-- A fault of the bind groups or of a template. -/
def Fault.IsUpFront (fault : Fault) : Prop :=
  (∃ key, fault = .duplicateBinding key) ∨ ∃ text why, fault = .malformedTemplate text why

/-! ## Faults that are not found up front -/

theorem Fault.IsOfStoring.not_isUpFront {fault : Fault} (h : fault.IsOfStoring) :
    ¬ fault.IsUpFront := by
  rcases h with ⟨path, why, rfl⟩ | ⟨path, why, rfl⟩
  · simp [IsUpFront]
  · simp [IsUpFront]

theorem Document.not_isUpFront_of_get {doc : Document} {key : Key} {fault : Fault}
    (h : doc.get key = .error fault) :
    ¬ fault.IsUpFront := by
  cases get_eq_error_iff.1 h with
  | empty => simp [Fault.IsUpFront]
  | absent => simp [Fault.IsUpFront]
  | closed => simp [Fault.IsUpFront]

theorem Expansion.Misshapen.not_isUpFront {bindings : Bindings} {doc : Document} {head : Key}
    {fault : Fault} (h : Misshapen bindings doc head fault) : ¬ fault.IsUpFront := by
  have harray : ∀ {key fault}, Arrayless doc key fault → ¬ fault.IsUpFront := by
    intro key fault ha
    cases ha with
    | missing hk => exact Document.not_isUpFront_of_get hk
    | other => simp [Fault.IsUpFront]
  cases h with
  | head ha => exact harray ha
  | member _ _ ha => exact harray ha
  | length => simp [Fault.IsUpFront]

theorem Template.not_isUpFront_of_renderParts {doc : Document} {parts : List Part} {fault : Fault}
    (h : renderParts doc parts = .error fault) : ¬ fault.IsUpFront := by
  induction parts with
  | nil => exact absurd h (by simp [renderParts])
  | cons part rest ih =>
    rw [renderParts] at h
    rcases Except.bind_eq_error_iff.1 h with hp | ⟨text, -, h⟩
    · cases part with
      | literal text => exact absurd hp (by simp [Part.render])
      | placeholder key format =>
        cases format with
        | none =>
          rw [Part.render] at hp
          split at hp
          · exact absurd hp (by simp)
          · next hk =>
            cases hp
            exact Document.not_isUpFront_of_get hk
        | some directive =>
          rw [Part.render] at hp
          split at hp
          · split at hp
            · exact absurd hp (by simp)
            · cases hp
              simp [Fault.IsUpFront]
          · next hk =>
            cases hp
            exact Document.not_isUpFront_of_get hk
    · rcases Except.bind_eq_error_iff.1 h with hr | ⟨more, -, h⟩
      · exact ih hr
      · exact absurd h (by simp [pure, Except.pure])

/-- **Rendering a template has no fault of template syntax.** -/
theorem Template.not_isUpFront_of_render {template : Template} {doc : Document} {fault : Fault}
    (h : template.render doc = .error fault) : ¬ fault.IsUpFront := by
  rw [render] at h
  cases hp : renderParts doc template.parts with
  | ok text =>
    rw [hp] at h
    cases h
  | error other =>
    rw [hp] at h
    cases h
    exact not_isUpFront_of_renderParts hp

namespace Delivery

/-! ## Rendering the values of a leaf -/

section RenderAll

variable {doc : Document} {key : Key} {keys rest : List Key} {held : Value} {fault : Fault}

theorem renderAt_eq_ok {text : String} (h : renderAt doc key = .ok text) :
    ∃ source, doc.get key = .ok (.text source) ∧ (Value.text source).IsTemplate := by
  rw [renderAt] at h
  split at h
  · exact absurd h (by simp)
  · next source hk =>
    split at h
    · exact absurd h (by simp)
    · next template hc => exact ⟨source, hk, source, template, rfl, hc⟩
  · exact absurd h (by simp)

theorem not_isUpFront_of_renderAt (hk : doc.get key = .ok held) (hheld : held.HoldsTemplates)
    (h : renderAt doc key = .error fault) : ¬ fault.IsUpFront := by
  rw [renderAt, hk] at h
  rcases hheld with ⟨source, template, rfl, hc⟩ | ⟨items, rfl, -⟩
  · simp only [hc] at h
    exact Template.not_isUpFront_of_render h
  · cases h
    simp [Fault.IsUpFront]

/-- One value rendered, and the others after it. -/
theorem renderAll_cons_of_ok {text : String} (hr : renderAt doc key = .ok text)
    (hk : doc.get key = .ok held) (rest : List Key) :
    renderAll (key :: rest) doc =
      let rendered := renderAll rest (doc.put key (.text text))
      { rendered with replaced := (key, held) :: rendered.replaced } := by
  rw [renderAll, hr]
  simp only [Document.replace_of_get hk]

theorem get_put_of_isLeaf (hk : doc.get key = .ok held) (hl : held.IsLeaf) {other : Key}
    {value : Value} (ho : doc.get other = .ok value) (hl' : value.IsLeaf) (hne : key ≠ other)
    (new : Value) :
    (doc.put key new).get other = .ok value := by
  rw [Document.get_put_of_apart (Document.apart_of_get hk hl ho hl' hne), ho]

/-- **No leaf with templates at its keys has a fault of template syntax**, in whatever order they
are rendered. -/
theorem not_isUpFront_of_renderAll (hd : keys.Nodup) (h : doc.HoldsTemplates keys)
    (he : (renderAll keys doc).outcome = .error fault) : ¬ fault.IsUpFront := by
  induction keys generalizing doc with
  | nil => exact absurd he (by simp [renderAll])
  | cons key rest ih =>
    obtain ⟨hn, hd⟩ := List.nodup_cons.1 hd
    obtain ⟨⟨held, hk, hheld⟩, hrest⟩ := List.forall_mem_cons.1 h
    cases hr : renderAt doc key with
    | error other =>
      simp only [renderAll, hr] at he
      cases he
      exact not_isUpFront_of_renderAt hk hheld hr
    | ok text =>
      rw [renderAll_cons_of_ok hr hk] at he
      refine ih hd (fun other ho => ?_) he
      obtain ⟨value, hv, hvalue⟩ := hrest other ho
      exact ⟨value,
        get_put_of_isLeaf hk hheld.isLeaf hv hvalue.isLeaf (fun he => hn (he ▸ ho)) _, hvalue⟩

/-- **What was rendered were templates, each at its key in the leaf as it came.** -/
theorem isTemplate_of_renderAll (hd : keys.Nodup) (h : (renderAll keys doc).outcome = .ok ()) :
    ∀ key ∈ keys, ∃ held, doc.get key = .ok held ∧ held.IsTemplate := by
  induction keys generalizing doc with
  | nil => simp
  | cons key rest ih =>
    obtain ⟨hn, hd⟩ := List.nodup_cons.1 hd
    cases hr : renderAt doc key with
    | error other =>
      simp only [renderAll, hr] at h
      exact absurd h (by simp)
    | ok text =>
      obtain ⟨source, hk, hsource⟩ := renderAt_eq_ok hr
      rw [renderAll_cons_of_ok hr hk] at h
      refine List.forall_mem_cons.2 ⟨⟨_, hk, hsource⟩, fun other ho => ?_⟩
      obtain ⟨value, hv, hvalue⟩ := ih hd h other ho
      refine ⟨value, ?_, hvalue⟩
      -- the other key is apart from the one that was written before it
      have hself : (doc.put key (.text text)).get key = .ok (.text text) :=
        Document.get_put_self hk _
      have ha := Document.apart_of_get hself (by simp [Value.IsLeaf]) hv hvalue.isLeaf
        fun he => hn (he ▸ ho)
      rw [← hv, Document.get_put_of_apart ha]

end RenderAll

/-! ## Visiting a leaf -/

section Visit

variable {plan : Plan} {leaf : Document} {fault : Fault}

theorem not_isUpFront_of_draft (hd : plan.render.Nodup) (h : leaf.HoldsTemplates plan.render)
    (he : draft plan leaf = .error fault) : ¬ fault.IsUpFront := by
  rcases draft_eq_error he with hr | ⟨-, hp⟩
  · exact not_isUpFront_of_renderAll hd h hr
  · exact Template.not_isUpFront_of_render hp

theorem not_isUpFront_of_ofPath {path : String} (h : FileFormat.ofPath path = .error fault) :
    ¬ fault.IsUpFront := by
  simp only [FileFormat.ofPath] at h
  split at h
  · exact absurd h (by simp)
  · cases h
    simp [Fault.IsUpFront]

theorem not_isUpFront_of_handOver {d : Draft} {dry : Bool} {site : Site}
    (h : (handOver (Site.outlet dry) d site).1 = .error fault) : ¬ fault.IsUpFront := by
  cases hf : FileFormat.ofPath d.path with
  | error other =>
    rw [handOver_of_error hf] at h
    cases h
    exact not_isUpFront_of_ofPath hf
  | ok format => exact (isOfStoring_of_handOver hf h).not_isUpFront

theorem not_isUpFront_of_visit (hd : plan.render.Nodup) (h : leaf.HoldsTemplates plan.render)
    {dry : Bool} {site : Site} (he : (visit plan (Site.outlet dry) leaf site).1 = .error fault) :
    ¬ fault.IsUpFront := by
  cases hdraft : draft plan leaf with
  | error other =>
    rw [visit_of_error hdraft] at he
    cases he
    exact not_isUpFront_of_draft hd h hdraft
  | ok d =>
    rw [visit_of_ok hdraft] at he
    exact not_isUpFront_of_handOver he

/-- **A leaf that was delivered had templates at all keys to render.** -/
theorem isTemplate_of_visit (hd : plan.render.Nodup) {outlet : Outlet (StateM Site)} {site : Site}
    (h : (visit plan outlet leaf site).1 = .ok ()) :
    ∀ key ∈ plan.render, ∃ held, leaf.get key = .ok held ∧ held.IsTemplate := by
  cases hdraft : draft plan leaf with
  | error other =>
    rw [visit_of_error hdraft] at h
    cases h
  | ok d => exact isTemplate_of_renderAll hd (draft_eq_ok hdraft).1

end Visit

/-! ## A run -/

/-- **A run on a document that was checked has no fault of template syntax**, at no leaf and not as
a whole. -/
theorem not_isUpFront_of_run (plan : Plan) (hb : plan.bindings.Built) (hd : plan.render.Nodup)
    {doc : Document} (h : doc.HoldsTemplates plan.render) (dry : Bool) (site : Site) :
    ∃ outcome final calls, plan.run (emit plan (Site.outlet dry)) doc site =
      ((outcome, doc), final) ∧ plan.run (emit plan (Site.outlet dry)).watched doc (site, []) =
        ((outcome, doc), (final, calls)) ∧
      (∀ call ∈ calls, ∀ fault, call.answer = .error fault → ¬ fault.IsUpFront) ∧
      ∀ fault, outcome = .error fault → ¬ fault.IsUpFront := by
  obtain ⟨outcome, final, calls, hplain, hrun, hcalls⟩ :=
    expand_watched (preserves_emit plan (Site.outlet dry)) plan.bindings plan.expand doc site
  have hall : ∀ call ∈ calls, ∀ fault, call.answer = .error fault → ¬ fault.IsUpFront := by
    intro call hc fault ha
    obtain ⟨hl, s, he⟩ := hcalls.of_mem hc
    rw [ha, outcome_emit] at he
    exact not_isUpFront_of_visit hd (holdsTemplates_of_leaf hb h hl) he.symm
  refine ⟨outcome, final, calls, hplain, hrun, hall, fun fault hf => ?_⟩
  rcases hcalls.of_error hf with ⟨call, hc, ha⟩ | ⟨-, he⟩
  · exact hall call hc fault ha
  · obtain ⟨reached, head, hm⟩ := misshapen_of_ending hb he
    exact hm.not_isUpFront

end Delivery

end Sweep
