import Sweep.Proofs.Expansion.Restoring

/-!
# Where a walk goes

Which documents a walk hands over, and in which order, does not depend on who receives them. If
every document comes back as it was, a walk is settled by its keys, the bindings and the document:
it is a list of **leaves**, and an **ending**, the fault of the walk itself if it comes upon one
behind the last leaf. A sink only decides how far along the list it lets the walk go.

> `expand_eq_follow`: a walk is its itinerary, followed until the sink has a fault.

So two runs with different sinks are two readers of one list, and whatever is to be said about a run
is said by induction over that list. This holds for all bindings, also for groups that could not
have been declared.
-/

set_option autoImplicit false

namespace Sweep.Expansion

/-- The documents that a walk hands over, and how it ends if none of them is refused. -/
structure Itinerary where
  leaves : List Document
  ending : Outcome

namespace Itinerary

/-- Itineraries one after the other; the first one that ends in a fault is the last. -/
def join : List Itinerary → Itinerary
  | [] => ⟨[], .ok ()⟩
  | ⟨leaves, .error fault⟩ :: _ => ⟨leaves, .error fault⟩
  | ⟨leaves, .ok ()⟩ :: rest => ⟨leaves ++ (join rest).leaves, (join rest).ending⟩

variable {m : Type → Type} [Monad m]

/-- Visit the leaves; the first fault ends it, be it of a visit or, behind the last leaf, of the
walk. -/
def follow (visit : Document → m Outcome) (itinerary : Itinerary) : m Outcome := do
  match ← untilFault visit itinerary.leaves with
  | .error fault => pure (.error fault)
  | .ok () => pure itinerary.ending

end Itinerary

/-- The itinerary of a walk. -/
def itinerary (bindings : Bindings) : List Key → Document → Itinerary
  | [], doc => ⟨[doc], .ok ()⟩
  | head :: rest, doc =>
    match groupLength bindings doc head with
    | .error fault => ⟨[], .error fault⟩
    | .ok length =>
      let taken := takeColumns (bindings.find head) doc
      match taken.outcome with
      | .error fault => ⟨[], .error fault⟩
      | .ok () =>
        .join ((List.range length).map fun row =>
          itinerary bindings rest (doc.fill (rowWrites row taken.columns)))

variable {m : Type → Type} [Monad m] [LawfulMonad m]

namespace Itinerary

theorem follow_nil (visit : Document → m Outcome) (ending : Outcome) :
    follow visit ⟨[], ending⟩ = pure ending := by
  rw [follow, untilFault, pure_bind]

theorem follow_cons (visit : Document → m Outcome) (leaf : Document) (rest : List Document)
    (ending : Outcome) :
    follow visit ⟨leaf :: rest, ending⟩ = (do
      match ← visit leaf with
      | .error fault => pure (.error fault)
      | .ok () => follow visit ⟨rest, ending⟩) := by
  rw [follow, untilFault, bind_assoc]
  refine bind_congr fun outcome => ?_
  cases outcome with
  | error fault => rw [pure_bind]
  | ok done => rfl

theorem follow_join (visit : Document → m Outcome) (parts : List Itinerary) :
    (join parts).follow visit = untilFault (follow visit) parts := by
  induction parts with
  | nil => rw [join, follow_nil, untilFault]
  | cons first rest ih =>
    obtain ⟨leaves, ending⟩ := first
    rw [untilFault, ← ih]
    cases ending with
    | error fault =>
      rw [join]
      simp only [follow, bind_assoc]
      refine bind_congr fun outcome => ?_
      cases outcome <;> rw [pure_bind]
    | ok done =>
      rw [join]
      simp only [follow, untilFault_append, bind_assoc]
      refine bind_congr fun outcome => ?_
      cases outcome <;> simp only [pure_bind]

end Itinerary

/-- **A walk is its itinerary, followed until the sink has a fault**; the document comes back as it
was. -/
theorem expand_eq_follow {sink : Sink m} (hs : sink.Preserves) (bindings : Bindings)
    (keys : List Key) (doc : Document) :
    expand sink bindings keys doc =
      (fun outcome => (outcome, doc)) <$> (itinerary bindings keys doc).follow sink.outcome := by
  induction keys generalizing doc with
  | nil =>
    rw [expand, itinerary, Itinerary.follow_cons, hs doc]
    congr 1
    refine (bind_pure _).symm.trans (bind_congr fun outcome => ?_)
    cases outcome with
    | error fault => rfl
    | ok done => rw [Itinerary.follow_nil]
  | cons head rest ih =>
    rw [expand, itinerary]
    -- a level stops at its checks, stops at the taking, or goes through its rows
    cases groupLength bindings doc head with
    | error fault => rw [Itinerary.follow_nil, map_pure]
    | ok length =>
      dsimp only
      cases ht : (takeColumns (bindings.find head) doc).outcome with
      | error fault => rw [withColumns_of_error _ _ ht, Itinerary.follow_nil, map_pure]
      | ok done =>
        rw [withColumns_eq (preserves_expand hs bindings rest) length ht, Itinerary.follow_join,
          untilFault_map]
        refine congrArg _ (untilFault_congr fun row _ => ?_)
        rw [Function.comp_apply, Sink.outcome_eq (ih _)]

/-! ## Following leaves with a state -/

theorem expand_apply {σ : Type} {sink : Sink (StateM σ)} (hs : sink.Preserves) (bindings : Bindings)
    (keys : List Key) (doc : Document) (s : σ) :
    expand sink bindings keys doc s =
      ((((itinerary bindings keys doc).follow sink.outcome s).1, doc),
        ((itinerary bindings keys doc).follow sink.outcome s).2) := by
  rw [expand_eq_follow hs]
  rfl

namespace Itinerary

variable {σ : Type} {visit : Document → StateM σ Outcome} {leaf : Document} {rest : List Document}
    {ending : Outcome} {s next : σ}

theorem follow_cons_of_ok (h : visit leaf s = (.ok (), next)) :
    follow visit ⟨leaf :: rest, ending⟩ s = follow visit ⟨rest, ending⟩ next := by
  rw [follow_cons]
  simp only [bind, StateT.bind, h]

theorem follow_cons_of_error {fault : Fault} (h : visit leaf s = (.error fault, next)) :
    follow visit ⟨leaf :: rest, ending⟩ s = (.error fault, next) := by
  rw [follow_cons]
  simp only [bind, StateT.bind, h]
  rfl

/-- What every visit keeps, following keeps. -/
theorem follow_induction {P : σ → Prop} (hv : ∀ leaf s, P s → P (visit leaf s).2) (way : Itinerary)
    (h : P s) :
    P (way.follow visit s).2 := by
  obtain ⟨leaves, ending⟩ := way
  induction leaves generalizing s with
  | nil =>
    rw [follow_nil]
    exact h
  | cons leaf rest ih =>
    have hn := hv leaf s h
    cases hr : visit leaf s with
    | mk outcome next =>
      rw [hr] at hn
      cases outcome with
      | error fault =>
        rw [follow_cons_of_error hr]
        exact hn
      | ok done =>
        rw [follow_cons_of_ok hr]
        exact ih hn

end Itinerary

end Sweep.Expansion
