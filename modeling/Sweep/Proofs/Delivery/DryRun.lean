import Sweep.Proofs.Delivery.Site

/-!
# A dry run foretells the real one

The same plan on the same document goes to the same leaves with the same drafts, dry or real. At a
leaf the two outlets ask the same question first, whether the path names a format, and a dry one
asks no other. What is left to a real one is to make the text and to write it; a fault there is a
fault **of storing** (`Fault.IsOfStoring`), which no dry run has.

So along the leaves the two runs stand in one of two ways (`Foretold`): they agree on outcome and
record, or the real one has stopped at a leaf that the dry one went past, with a fault of storing
and a shorter record.

What a site records is what it announced, after every leaf. To speak of every leaf, a run is looked
at through `Sink.traced`, which keeps the states that the sink leaves behind.
-/

set_option autoImplicit false

namespace Sweep

/-- A sink that also keeps the state after every document it is handed. -/
def Sink.traced {σ : Type} (sink : Sink (StateM σ)) : Sink (StateM (σ × List σ)) := fun doc past =>
  let (result, s) := sink doc past.1
  (result, (s, past.2 ++ [s]))

theorem Sink.preserves_traced {σ : Type} {sink : Sink (StateM σ)} (hs : sink.Preserves) :
    sink.traced.Preserves := by
  rw [Sink.preserves_iff] at hs ⊢
  exact fun doc past => hs doc past.1

namespace Delivery

open Expansion Itinerary

/-! ## Two runs side by side -/

/-- How a real run stands to the dry one: they agree, or the real one had a fault of storing at a
leaf that the dry one went past. -/
inductive Foretold (dry real : Outcome × Site) : Prop where
  | agree : real.1 = dry.1 → real.2.recorded = dry.2.recorded → Foretold dry real
  | stopped {fault : Fault} : real.1 = .error fault → fault.IsOfStoring →
      real.2.recorded <+: dry.2.recorded → real.2.recorded.length < dry.2.recorded.length →
      Foretold dry real

/-- At a leaf the two runs have one fault, or the dry one goes past it and the real one either does
so too or has a fault of storing. -/
theorem visit_cases (plan : Plan) (leaf : Document) :
    (∃ fault, ∀ dry site, visit plan (Site.outlet dry) leaf site = (.error fault, site)) ∨
      ∃ path, (∀ site, visit plan (Site.outlet true) leaf site = (.ok (), site.noted path)) ∧
        ∀ site, ∃ files,
          visit plan (Site.outlet false) leaf site =
            (.ok (), ({ site with files } : Site).noted path) ∨
            ∃ fault, fault.IsOfStoring ∧
              visit plan (Site.outlet false) leaf site = (.error fault, { site with files }) := by
  cases hd : draft plan leaf with
  | error fault =>
    left
    refine ⟨fault, fun dry site => ?_⟩
    rw [visit_of_error hd]
    rfl
  | ok d =>
    cases hf : FileFormat.ofPath d.path with
    | error fault =>
      left
      refine ⟨fault, fun dry site => ?_⟩
      rw [visit_of_ok hd, handOver_of_error hf]
    | ok format =>
      right
      refine ⟨d.path, fun site => ?_, fun site => ?_⟩
      · rw [visit_of_ok hd, handOver_dry, hf]
      · rw [visit_of_ok hd, handOver_real]
        cases ht : d.text with
        | error fault => exact ⟨site.files, .inr ⟨fault, Draft.isOfStoring_of_text hf ht, rfl⟩⟩
        | ok text =>
          cases hs : deposit site.files d.path text with
          | mk outcome files =>
            refine ⟨files, ?_⟩
            dsimp only
            rw [hs]
            cases outcome with
            | ok done => exact .inl rfl
            | error fault =>
              have hfault : (deposit site.files d.path text).1 = .error fault := by rw [hs]
              exact .inr ⟨fault, isOfStoring_of_deposit hfault, rfl⟩

/-- A dry run touches no file, and records more and more. -/
theorem visit_dry_keeps (plan : Plan) (leaf : Document) (site : Site) :
    (visit plan (Site.outlet true) leaf site).2.files = site.files ∧
      site.recorded <+: (visit plan (Site.outlet true) leaf site).2.recorded := by
  rcases visit_cases plan leaf with ⟨fault, h⟩ | ⟨path, h, -⟩
  · rw [h]
    exact ⟨rfl, List.prefix_refl _⟩
  · rw [h]
    exact ⟨rfl, List.prefix_append _ _⟩

theorem announced_visit (plan : Plan) (dry : Bool) (leaf : Document) (site : Site)
    (h : site.announced = site.recorded) :
    (visit plan (Site.outlet dry) leaf site).2.announced =
      (visit plan (Site.outlet dry) leaf site).2.recorded := by
  have hnoted : ∀ path, (site.noted path).announced = (site.noted path).recorded := by
    intro path
    show site.announced ++ [path] = site.recorded ++ [path]
    rw [h]
  rcases visit_cases plan leaf with ⟨fault, hv⟩ | ⟨path, hdry, hreal⟩
  · rw [hv]
    exact h
  · cases dry with
    | true =>
      rw [hdry]
      exact hnoted path
    | false =>
      obtain ⟨files, hv | ⟨fault, -, hv⟩⟩ := hreal site
      · rw [hv]
        exact hnoted path
      · rw [hv]
        exact h

/-- **Along the same leaves, a dry run foretells a real one.** -/
theorem foretold_follow (plan : Plan) (way : Itinerary) {dry real : Site}
    (h : real.recorded = dry.recorded) :
    Foretold (way.follow (visit plan (Site.outlet true)) dry)
      (way.follow (visit plan (Site.outlet false)) real) := by
  obtain ⟨leaves, ending⟩ := way
  induction leaves generalizing dry real with
  | nil =>
    rw [follow_nil, follow_nil]
    exact .agree rfl h
  | cons leaf rest ih =>
    rcases visit_cases plan leaf with ⟨fault, hv⟩ | ⟨path, hdry, hreal⟩
    · rw [follow_cons_of_error (hv true dry), follow_cons_of_error (hv false real)]
      exact .agree rfl h
    · have hpast : (dry.noted path).recorded <+:
          (follow (visit plan (Site.outlet true)) ⟨rest, ending⟩ (dry.noted path)).2.recorded :=
        follow_induction (P := fun site : Site => (dry.noted path).recorded <+: site.recorded)
          (fun leaf site hp => hp.trans (visit_dry_keeps plan leaf site).2) ⟨rest, ending⟩
            (List.prefix_refl _)
      rw [follow_cons_of_ok (hdry dry)]
      obtain ⟨files, hv | ⟨fault, hf, hv⟩⟩ := hreal real
      · rw [follow_cons_of_ok hv]
        refine ih ?_
        show real.recorded ++ [path] = dry.recorded ++ [path]
        rw [h]
      · -- the dry run has this leaf on record, whatever comes after it
        rw [follow_cons_of_error hv]
        refine .stopped rfl hf ?_ ?_
        · show real.recorded <+: _
          rw [h]
          exact (List.prefix_append _ _).trans hpast
        · show real.recorded.length < _
          have hnoted : (dry.noted path).recorded.length = dry.recorded.length + 1 := by
            simp [Site.noted]
          have hl := hpast.length_le
          rw [hnoted] at hl
          rw [h]
          exact hl

section Foretold

variable {dry real : Outcome × Site} {fault : Fault}

theorem Foretold.recorded_prefix (h : Foretold dry real) : real.2.recorded <+: dry.2.recorded := by
  cases h with
  | agree _ hr => exact ⟨[], by rw [List.append_nil, hr]⟩
  | stopped _ _ hp _ => exact hp

theorem Foretold.of_real_ok (h : Foretold dry real) (hr : real.1 = .ok ()) :
    dry.1 = .ok () ∧ dry.2.recorded = real.2.recorded := by
  cases h with
  | agree ho hrec => exact ⟨ho.symm.trans hr, hrec.symm⟩
  | stopped he _ _ _ =>
    rw [hr] at he
    exact absurd he (by simp)

theorem Foretold.of_dry_error (h : Foretold dry real) (hd : dry.1 = .error fault) :
    ∃ other, real.1 = .error other ∧ real.2.recorded.length ≤ dry.2.recorded.length ∧
      (real.2.recorded.length = dry.2.recorded.length → other = fault) ∧
      (real.2.recorded.length < dry.2.recorded.length → other.IsOfStoring) := by
  cases h with
  | agree ho hr =>
    rw [hr]
    exact ⟨fault, ho.trans hd, Nat.le_refl _, fun _ => rfl, fun hlt => absurd hlt (Nat.lt_irrefl _)⟩
  | @stopped other he hs hp hlt =>
    exact ⟨other, he, hp.length_le, fun heq => absurd heq (Nat.ne_of_lt hlt), fun _ => hs⟩

theorem Foretold.of_dry_ok (h : Foretold dry real) (hd : dry.1 = .ok ())
    (hr : real.1 = .error fault) :
    fault.IsOfStoring := by
  cases h with
  | agree ho _ =>
    rw [ho, hd] at hr
    exact absurd hr (by simp)
  | stopped he hs _ _ =>
    rw [he] at hr
    cases hr
    exact hs

end Foretold

/-! ## After every leaf -/

/-- Keeping the states changes nothing about the run, and what every visit keeps holds of all of
them. -/
theorem follow_traced {σ : Type} (sink : Sink (StateM σ)) (way : Itinerary) (s : σ)
    (past : List σ) :
    ∃ after, way.follow sink.traced.outcome (s, past) =
        ((way.follow sink.outcome s).1, ((way.follow sink.outcome s).2, past ++ after)) ∧
      ∀ P : σ → Prop, (∀ leaf s, P s → P (sink.outcome leaf s).2) → P s →
        ∀ state ∈ after, P state := by
  obtain ⟨leaves, ending⟩ := way
  induction leaves generalizing s past with
  | nil =>
    refine ⟨[], ?_, by simp⟩
    rw [follow_nil, follow_nil, List.append_nil]
    rfl
  | cons leaf rest ih =>
    have ht : sink.traced.outcome leaf (s, past) =
        ((sink.outcome leaf s).1, ((sink.outcome leaf s).2, past ++ [(sink.outcome leaf s).2])) :=
          rfl
    cases hv : sink.outcome leaf s with
    | mk outcome next =>
      rw [hv] at ht
      have hnext : ∀ P : σ → Prop, (∀ leaf s, P s → P (sink.outcome leaf s).2) → P s → P next := by
        intro P hP hs
        have hn := hP leaf s hs
        rwa [hv] at hn
      cases outcome with
      | error fault =>
        refine ⟨[next], ?_, fun P hP hs => List.forall_mem_singleton.2 (hnext P hP hs)⟩
        rw [follow_cons_of_error ht, follow_cons_of_error hv]
      | ok done =>
        obtain ⟨after, he, hall⟩ := ih next (past ++ [next])
        refine ⟨next :: after, ?_, fun P hP hs => ?_⟩
        · rw [follow_cons_of_ok ht, follow_cons_of_ok hv, he, List.append_assoc,
            List.singleton_append]
        · exact List.forall_mem_cons.2 ⟨hnext P hP hs, hall P hP (hnext P hP hs)⟩

/-- A traced run is the run, with the sites after its leaves; what every visit keeps holds of all of
them. -/
theorem run_traced (plan : Plan) (outlet : Outlet (StateM Site)) (doc : Document) (site : Site) :
    ∃ sites,
      plan.run (emit plan outlet).traced doc (site, []) =
        (((follow (visit plan outlet) (itinerary plan.bindings plan.expand doc) site).1, doc),
          ((follow (visit plan outlet) (itinerary plan.bindings plan.expand doc) site).2, sites)) ∧
      ∀ P : Site → Prop, (∀ leaf s, P s → P (visit plan outlet leaf s).2) → P site →
        ∀ s ∈ sites, P s := by
  rw [Plan.run, expand_apply (Sink.preserves_traced (preserves_emit plan outlet))]
  obtain ⟨sites, he, hall⟩ :=
    follow_traced (emit plan outlet) (itinerary plan.bindings plan.expand doc) site []
  rw [outcome_emit] at he hall
  rw [he]
  exact ⟨sites, rfl, hall⟩

/-- **A dry run foretells the real one.** The paths of the real run are the first ones of the dry
run; if it succeeds, the dry run succeeds with the same paths. Where the dry run fails, the real one
has failed as well: with the same fault if it came as far, and else with a fault of storing, which
is also the only kind of fault that a dry run does not foresee. After every leaf the announced paths
are the recorded ones, and the dry run leaves all files as they are. -/
theorem dry_run_foretells_real_run (plan : Plan) (doc : Document) (files : Files.Tree) :
    ∃ dryOutcome drySite drySites realOutcome realSite realSites,
      plan.run (emit plan (Site.outlet true)).traced doc (Site.ofTree files, []) =
          ((dryOutcome, doc), (drySite, drySites)) ∧
        plan.run (emit plan (Site.outlet false)).traced doc (Site.ofTree files, []) =
          ((realOutcome, doc), (realSite, realSites)) ∧
        realSite.recorded <+: drySite.recorded ∧
        (realOutcome = .ok () → dryOutcome = .ok () ∧ drySite.recorded = realSite.recorded) ∧
        (∀ fault, dryOutcome = .error fault →
          ∃ other, realOutcome = .error other ∧ realSite.recorded.length ≤ drySite.recorded.length ∧
            (realSite.recorded.length = drySite.recorded.length → other = fault) ∧
            (realSite.recorded.length < drySite.recorded.length → other.IsOfStoring)) ∧
        (dryOutcome = .ok () → ∀ fault, realOutcome = .error fault → fault.IsOfStoring) ∧
        (∀ site ∈ drySite :: drySites, site.announced = site.recorded ∧ site.files = files) ∧
        ∀ site ∈ realSite :: realSites, site.announced = site.recorded := by
  obtain ⟨drySites, hdry, hdrySites⟩ := run_traced plan (Site.outlet true) doc (Site.ofTree files)
  obtain ⟨realSites, hreal, hrealSites⟩ :=
    run_traced plan (Site.outlet false) doc (Site.ofTree files)
  have hway := foretold_follow plan (itinerary plan.bindings plan.expand doc)
    (show (Site.ofTree files).recorded = (Site.ofTree files).recorded from rfl)
  refine ⟨_, _, drySites, _, _, realSites, hdry, hreal, hway.recorded_prefix, hway.of_real_ok,
    fun fault => hway.of_dry_error, fun hd fault => hway.of_dry_ok hd, ?_, ?_⟩
  · have hkeep : ∀ leaf site, site.announced = site.recorded ∧ site.files = files →
        (visit plan (Site.outlet true) leaf site).2.announced =
          (visit plan (Site.outlet true) leaf site).2.recorded ∧
          (visit plan (Site.outlet true) leaf site).2.files = files := fun leaf site hs =>
      ⟨announced_visit plan true leaf site hs.1, (visit_dry_keeps plan leaf site).1.trans hs.2⟩
    refine List.forall_mem_cons.2 ⟨?_, ?_⟩
    · exact follow_induction (P := fun site : Site =>
        site.announced = site.recorded ∧ site.files = files) hkeep _
        ⟨rfl, rfl⟩
    · exact hdrySites (fun site => site.announced = site.recorded ∧ site.files = files)
        hkeep ⟨rfl, rfl⟩
  · refine List.forall_mem_cons.2 ⟨?_, ?_⟩
    · exact follow_induction (P := fun site : Site => site.announced = site.recorded)
        (announced_visit plan false) _ rfl
    · exact hrealSites (fun site => site.announced = site.recorded) (announced_visit plan false) rfl

end Delivery

end Sweep
