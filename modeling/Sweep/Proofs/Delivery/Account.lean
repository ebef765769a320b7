import Sweep.Proofs.Delivery.Site

/-!
# The account of deliveries

A leaf is changed while it is being delivered: its values to render are replaced one after the
other, and each of them, the path, the format, the text and the file system can stop the delivery
half way. Whatever stops it, the leaf is handed back as it was, with any list of values to render
and whatever the file system answers; that much is a fact about emitting alone, for every outlet.

A site keeps account of the paths that were delivered to. One emission adds the path of its draft to
the account if it succeeds, and nothing if it does not (`handOver_cases`), so a path is on the
account exactly if its delivery succeeded.
-/

set_option autoImplicit false

namespace Sweep.Delivery

/-- Handing over a draft either succeeds and adds its path to the account, or fails and adds
nothing. -/
theorem handOver_cases (d : Draft) (dry : Bool) (site : Site) :
    (∃ files, handOver (Site.outlet dry) d site =
      (.ok (), ({ site with files } : Site).noted d.path)) ∨
      ∃ fault files, handOver (Site.outlet dry) d site = (.error fault, { site with files }) := by
  cases dry with
  | true =>
    rw [handOver_dry]
    cases FileFormat.ofPath d.path with
    | error fault => exact .inr ⟨fault, site.files, rfl⟩
    | ok format => exact .inl ⟨site.files, rfl⟩
  | false =>
    rw [handOver_real]
    cases d.text with
    | error fault => exact .inr ⟨fault, site.files, rfl⟩
    | ok text =>
      dsimp only
      cases deposit site.files d.path text with
      | mk outcome files =>
        cases outcome with
        | error fault => exact .inr ⟨fault, files, rfl⟩
        | ok done => exact .inl ⟨files, rfl⟩

/-- What a visit adds to the account. -/
theorem recorded_visit (plan : Plan) (dry : Bool) (leaf : Document) (site : Site) :
    (∃ d after, draft plan leaf = .ok d ∧ visit plan (Site.outlet dry) leaf site = (.ok (), after) ∧
        after.recorded = site.recorded ++ [d.path]) ∨
      ∃ fault after, visit plan (Site.outlet dry) leaf site = (.error fault, after) ∧
        after.recorded = site.recorded := by
  cases hd : draft plan leaf with
  | error fault =>
    refine .inr ⟨fault, site, ?_, rfl⟩
    rw [visit_of_error hd]
    rfl
  | ok d =>
    rw [visit_of_ok hd]
    rcases handOver_cases d dry site with ⟨files, h⟩ | ⟨fault, files, h⟩
    · exact .inl ⟨d, _, rfl, h, rfl⟩
    · exact .inr ⟨fault, _, h, rfl⟩

/-- **Emitting gives the document back as it was**, whatever is to be rendered and whatever stops
the delivery. On a site, dry or not, exactly one path is added to the account if the emission
succeeds, the one that the document with its values rendered gives, and none if it fails. -/
theorem emit_keeps_contract (plan : Plan) (doc : Document) :
    (∀ (m : Type → Type) [Monad m] [LawfulMonad m] (outlet : Outlet m),
      Prod.snd <$> emit plan outlet doc = (fun _ => doc) <$> emit plan outlet doc) ∧
    ∀ (dry : Bool) (site : Site), ∃ outcome after,
      emit plan (Site.outlet dry) doc site = ((outcome, doc), after) ∧
      (outcome = .ok () ↔ ∃ path, after.recorded = site.recorded ++ [path]) ∧
      (∀ path, after.recorded = site.recorded ++ [path] →
        plan.output.render (renderAll plan.render doc).document = .ok path) ∧
      ∀ fault, outcome = .error fault → after.recorded = site.recorded := by
  refine ⟨fun m _ _ outlet => ?_, fun dry site => ?_⟩
  · rw [emit_eq, Functor.map_map, Functor.map_map]
  · have hemit : emit plan (Site.outlet dry) doc site =
        (((visit plan (Site.outlet dry) doc site).1, doc),
          (visit plan (Site.outlet dry) doc site).2) := by
      rw [emit_eq]
      rfl
    rw [hemit]
    refine ⟨_, _, rfl, ?_⟩
    rcases recorded_visit plan dry doc site with ⟨d, after, hd, hv, hr⟩ | ⟨fault, after, hv, hr⟩
    · rw [hv]
      refine ⟨⟨fun _ => ⟨d.path, hr⟩, fun _ => rfl⟩, fun path hp => ?_,
        fun _ h => absurd h (by simp)⟩
      rw [hr, List.append_cancel_left_eq, List.cons.injEq] at hp
      rw [← hp.1]
      exact (draft_eq_ok hd).2.1
    · rw [hv]
      have hnone : ∀ path, after.recorded ≠ site.recorded ++ [path] := fun path hp => by
        rw [hr] at hp
        exact absurd hp (by simp)
      exact ⟨⟨fun h => absurd h (by simp), fun ⟨path, hp⟩ => absurd hp (hnone path)⟩,
        fun path hp => absurd hp (hnone path), fun _ _ => hr⟩

end Sweep.Delivery
