import Sweep.Delivery
import Sweep.Proofs.Except
import Sweep.Proofs.Expansion.Itinerary

/-!
# A delivered leaf

What is delivered of a leaf is settled before the outlet is asked: its values to render and its path
make a **draft**, or there is a fault. Rendering replaces values one after the other, so putting
them back in the reverse order meets at each key the document that the value was taken from
(`putBack_renderAll`); the leaf comes back as it was, whatever happened in between, and putting back
has no fault of its own.

> `emit_eq`: emitting a leaf is handing its draft to the outlet, and giving the leaf back.

With `Sweep.Proofs.Expansion.Itinerary` this makes a whole run the drafts of its leaves, handed over
one after the other (`run_emit`).
-/

set_option autoImplicit false

namespace Sweep.Delivery

open Expansion

/-! ## Values to render -/

/-- **What was rendered can be put back**, also when the rendering stopped half way. -/
theorem putBack_renderAll (keys : List Key) (doc : Document) :
    putBack (renderAll keys doc).replaced.reverse (renderAll keys doc).document =
      (.ok (), doc) := by
  induction keys generalizing doc with
  | nil => rfl
  | cons key rest ih =>
    rw [renderAll]
    cases hr : renderAt doc key with
    | error fault => rfl
    | ok text =>
      dsimp only
      rw [Document.replace_eq]
      cases hk : doc.get key with
      | error fault => rfl
      | ok old =>
        simp only [Except.map, List.reverse_cons]
        -- the later values go back first, which leaves only the one at `key`
        rw [putBack_append (ih _), putBack, Document.set_put_of_get hk]
        rfl

/-! ## Drafts -/

/-- What is delivered: a document, and where it goes. -/
structure Draft where
  path : String
  document : Document

/-- The draft of a leaf: its values to render replaced, and the path of what it then is. -/
def draft (plan : Plan) (leaf : Document) : Except Fault Draft :=
  let rendered := renderAll plan.render leaf
  match rendered.outcome with
  | .error fault => .error fault
  | .ok () => (plan.output.render rendered.document).map (⟨·, rendered.document⟩)

theorem draft_eq_ok {plan : Plan} {leaf : Document} {d : Draft} (hd : draft plan leaf = .ok d) :
    (renderAll plan.render leaf).outcome = .ok () ∧
      plan.output.render (renderAll plan.render leaf).document = .ok d.path ∧
      d.document = (renderAll plan.render leaf).document := by
  rw [draft] at hd
  split at hd
  · exact absurd hd (by simp)
  · next hr =>
    obtain ⟨path, hp, rfl⟩ := Except.map_eq_ok_iff.1 hd
    exact ⟨hr, hp, rfl⟩

theorem draft_eq_error {plan : Plan} {leaf : Document} {fault : Fault}
    (hd : draft plan leaf = .error fault) :
    (renderAll plan.render leaf).outcome = .error fault ∨
      (renderAll plan.render leaf).outcome = .ok () ∧
        plan.output.render (renderAll plan.render leaf).document = .error fault := by
  rw [draft] at hd
  cases hr : (renderAll plan.render leaf).outcome with
  | error other =>
    simp only [hr] at hd
    cases hd
    exact .inl rfl
  | ok done =>
    simp only [hr] at hd
    cases hp : plan.output.render (renderAll plan.render leaf).document with
    | error other =>
      rw [hp] at hd
      cases hd
      exact .inr ⟨rfl, rfl⟩
    | ok path =>
      rw [hp] at hd
      cases hd

variable {m : Type → Type} [Monad m]

/-- Save a draft, and announce and record its path if that succeeded. -/
def handOver (outlet : Outlet m) (d : Draft) : m Outcome := do
  match ← outlet.save d.path d.document with
  | .error fault => pure (.error fault)
  | .ok () =>
    outlet.announce d.path
    outlet.record d.path
    pure (.ok ())

/-- Hand over the draft of a leaf, if it has one. -/
def visit (plan : Plan) (outlet : Outlet m) (leaf : Document) : m Outcome :=
  match draft plan leaf with
  | .error fault => pure (.error fault)
  | .ok d => handOver outlet d

variable [LawfulMonad m] (plan : Plan) (outlet : Outlet m)

/-- **Emitting a leaf is handing over its draft**; the leaf comes back as it was. -/
theorem emit_eq (leaf : Document) :
    emit plan outlet leaf = (fun outcome => (outcome, leaf)) <$> visit plan outlet leaf := by
  have hback := putBack_renderAll plan.render leaf
  have hboth : ∀ outcome : Outcome, both outcome (.ok ()) = outcome :=
    fun outcome => by cases outcome <;> rfl
  rw [emit, visit, draft, map_eq_pure_bind]
  simp only [hback, hboth]
  cases (renderAll plan.render leaf).outcome with
  | error fault => rfl
  | ok done =>
    dsimp only
    rw [deliver]
    cases plan.output.render (renderAll plan.render leaf).document with
    | error fault => rfl
    | ok path => rfl

theorem preserves_emit : (emit plan outlet).Preserves := by
  intro leaf
  rw [Sink.outcome_eq (emit_eq plan outlet leaf)]
  exact emit_eq plan outlet leaf

theorem outcome_emit : (emit plan outlet).outcome = visit plan outlet :=
  funext fun leaf => Sink.outcome_eq (emit_eq plan outlet leaf)

/-- **A run hands over the drafts of its leaves**, one after the other. -/
theorem run_emit (doc : Document) :
    plan.run (emit plan outlet) doc =
      (fun outcome => (outcome, doc)) <$>
        (itinerary plan.bindings plan.expand doc).follow (visit plan outlet) := by
  rw [Plan.run, expand_eq_follow (preserves_emit plan outlet), outcome_emit]

theorem run_emit_apply {σ : Type} (plan : Plan) (outlet : Outlet (StateM σ)) (doc : Document)
    (s : σ) :
    plan.run (emit plan outlet) doc s =
      ((((itinerary plan.bindings plan.expand doc).follow (visit plan outlet) s).1, doc),
        ((itinerary plan.bindings plan.expand doc).follow (visit plan outlet) s).2) := by
  rw [run_emit]
  rfl

end Sweep.Delivery
