import Sweep.Proofs.Expansion.Itinerary

/-!
# What a sink was asked, and what it said

To tell a fault of the walk from a fault of its sink, a run is looked at through `Sink.watched`,
which keeps account of the **calls**: the documents that the sink was handed, each with what it said
of it. Along an itinerary the calls are the leaves up to the first one that the sink refuses
(`Answered`). So a fault without a refusal is the ending of the itinerary, behind all its leaves.

Watching changes nothing about a run. This is the case of a more general fact, which holds of every
sink that carries the state of another one along with a state of its own (`follow_of_carried`).
-/

set_option autoImplicit false

namespace Sweep

open Expansion

/-- A document that a sink was handed, and what it said of it. -/
structure Call where
  document : Document
  answer : Outcome

/-- A sink that also keeps account of its calls. -/
def Sink.watched {σ : Type} (sink : Sink (StateM σ)) :
    Sink (StateM (σ × List Call)) := fun doc past =>
  let (result, s) := sink doc past.1
  (result, (s, past.2 ++ [⟨doc, result.1⟩]))

theorem Sink.preserves_watched {σ : Type} {sink : Sink (StateM σ)} (hs : sink.Preserves) :
    sink.watched.Preserves := by
  rw [Sink.preserves_iff] at hs ⊢
  intro doc past
  exact hs doc past.1

namespace Expansion.Itinerary

variable {σ τ : Type} {visit : Document → StateM σ Outcome}

/-- **A state that is carried along changes nothing.** -/
theorem follow_of_carried {carrying : Document → StateM τ Outcome} (state : τ → σ)
    (h : ∀ leaf t, visit leaf (state t) = ((carrying leaf t).1, state (carrying leaf t).2))
    (way : Itinerary) (t : τ) :
    way.follow visit (state t) = ((way.follow carrying t).1, state (way.follow carrying t).2) := by
  obtain ⟨leaves, ending⟩ := way
  induction leaves generalizing t with
  | nil =>
    rw [follow_nil, follow_nil]
    rfl
  | cons leaf rest ih =>
    have hv := h leaf t
    cases hc : carrying leaf t with
    | mk outcome next =>
      rw [hc] at hv
      cases outcome with
      | error fault => rw [follow_cons_of_error hc, follow_cons_of_error hv]
      | ok done => rw [follow_cons_of_ok hc, follow_cons_of_ok hv, ih]

/-- The calls along an itinerary, and the outcome: they go on as long as the sink is content. -/
inductive Answered (visit : Document → StateM σ Outcome) : Itinerary → List Call →
    Outcome → Prop where
  /-- there are no leaves left -/
  | behind (ending : Outcome) : Answered visit ⟨[], ending⟩ [] ending
  /-- a leaf is refused -/
  | refused {leaf : Document} {rest : List Document} {ending : Outcome} {fault : Fault} {s : σ}
    (h : (visit leaf s).1 = .error fault) :
      Answered visit ⟨leaf :: rest, ending⟩ [⟨leaf, .error fault⟩] (.error fault)
  /-- a leaf is taken, and it goes on -/
  | taken {leaf : Document} {rest : List Document} {ending outcome : Outcome}
      {calls : List Call} {s : σ}
    (h : (visit leaf s).1 = .ok ()) (more : Answered visit ⟨rest, ending⟩ calls outcome) :
    Answered visit ⟨leaf :: rest, ending⟩ (⟨leaf, .ok ()⟩ :: calls) outcome

section Answered

variable {way : Itinerary} {calls : List Call} {outcome : Outcome}

/-- **A sink that refuses nothing is handed all leaves**, and the outcome is the ending. -/
theorem Answered.all_taken (h : Answered visit way calls outcome)
    (hok : ∀ call ∈ calls, call.answer = .ok ()) :
    calls.map Call.document = way.leaves ∧ outcome = way.ending := by
  induction h with
  | behind ending => exact ⟨rfl, rfl⟩
  | refused _ =>
    have hr := hok _ List.mem_cons_self
    exact absurd hr (by simp)
  | taken _ _ ih =>
    obtain ⟨hdocs, hend⟩ := ih fun call hc => hok call (List.mem_cons_of_mem _ hc)
    refine ⟨?_, hend⟩
    rw [List.map_cons, hdocs]

/-- What is handed over is a leaf, and the answer is what the sink says of it. -/
theorem Answered.of_mem (h : Answered visit way calls outcome) {call : Call} (hc : call ∈ calls) :
    call.document ∈ way.leaves ∧ ∃ s, call.answer = (visit call.document s).1 := by
  induction h with
  | behind ending => exact absurd hc (by simp)
  | @refused leaf rest ending fault s h =>
    rw [List.mem_singleton] at hc
    subst hc
    exact ⟨List.mem_cons_self, s, h.symm⟩
  | @taken leaf rest ending outcome calls s h _ ih =>
    rcases List.mem_cons.1 hc with rfl | hc
    · exact ⟨List.mem_cons_self, s, h.symm⟩
    · exact ⟨List.mem_cons_of_mem _ (ih hc).1, (ih hc).2⟩

/-- **A fault is a refusal or the ending.** -/
theorem Answered.of_error (h : Answered visit way calls outcome) {fault : Fault}
    (hf : outcome = .error fault) :
    (∃ call ∈ calls, call.answer = .error fault) ∨
      (∀ call ∈ calls, call.answer = .ok ()) ∧ way.ending = .error fault := by
  induction h with
  | behind ending => exact .inr ⟨by simp, hf⟩
  | refused _ => exact .inl ⟨_, List.mem_cons_self, hf⟩
  | taken _ _ ih =>
    rcases ih hf with ⟨call, hc, ha⟩ | ⟨hok, hend⟩
    · exact .inl ⟨call, List.mem_cons_of_mem _ hc, ha⟩
    · exact .inr ⟨List.forall_mem_cons.2 ⟨rfl, hok⟩, hend⟩

end Answered

theorem follow_watched (sink : Sink (StateM σ)) (way : Itinerary) (s : σ) (past : List Call) :
    ∃ calls, way.follow sink.watched.outcome (s, past) =
        ((way.follow sink.outcome s).1, ((way.follow sink.outcome s).2, past ++ calls)) ∧
      Answered sink.outcome way calls (way.follow sink.outcome s).1 := by
  obtain ⟨leaves, ending⟩ := way
  induction leaves generalizing s past with
  | nil =>
    refine ⟨[], ?_, .behind ending⟩
    rw [follow_nil, follow_nil, List.append_nil]
    rfl
  | cons leaf rest ih =>
    have hw : sink.watched.outcome leaf (s, past) =
        ((sink.outcome leaf s).1,
          ((sink.outcome leaf s).2, past ++ [⟨leaf, (sink.outcome leaf s).1⟩])) := rfl
    cases hv : sink.outcome leaf s with
    | mk outcome next =>
      rw [hv] at hw
      have hanswer : (sink.outcome leaf s).1 = outcome := by rw [hv]
      cases outcome with
      | error fault =>
        refine ⟨[⟨leaf, .error fault⟩], ?_, ?_⟩
        · rw [follow_cons_of_error hw, follow_cons_of_error hv]
        · rw [follow_cons_of_error hv]
          exact .refused hanswer
      | ok done =>
        obtain ⟨calls, he, hcalls⟩ := ih next (past ++ [⟨leaf, .ok ()⟩])
        refine ⟨⟨leaf, .ok ()⟩ :: calls, ?_, ?_⟩
        · rw [follow_cons_of_ok hw, follow_cons_of_ok hv, he, List.append_assoc,
            List.singleton_append]
        · rw [follow_cons_of_ok hv]
          exact .taken hanswer hcalls

end Expansion.Itinerary

/-- A watched walk is the walk, with an account of its calls. -/
theorem Expansion.expand_watched {σ : Type} {sink : Sink (StateM σ)} (hs : sink.Preserves)
    (bindings : Bindings) (keys : List Key) (doc : Document) (s : σ) :
    ∃ outcome final calls, expand sink bindings keys doc s = ((outcome, doc), final) ∧
      expand sink.watched bindings keys doc (s, []) = ((outcome, doc), (final, calls)) ∧
      Itinerary.Answered sink.outcome (itinerary bindings keys doc) calls outcome := by
  obtain ⟨calls, he, hcalls⟩ := Itinerary.follow_watched sink (itinerary bindings keys doc) s []
  refine ⟨_, _, calls, expand_apply hs bindings keys doc s, ?_, hcalls⟩
  rw [expand_apply (Sink.preserves_watched hs), he, List.nil_append]

end Sweep
