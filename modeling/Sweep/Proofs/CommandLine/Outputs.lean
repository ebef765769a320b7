import Mathlib.Data.List.Dedup
import Sweep.Proofs.CommandLine.Run
import Sweep.Proofs.Delivery.Disk
import Sweep.Proofs.Delivery.DryRun

/-!
# What a successful run leaves

A run that succeeds has stored every leaf of its itinerary, and reports their number. It asks
nothing about the paths: leaves may name one place, and then the last one of them is on disk, and a
leaf may name the place of the input, by the same path or by another one. So the number of files can
fall short of the number reported (`outputs_can_collide`).

> `outputs_of_real_run`: there are as many files as were reported exactly if all paths name
> different places, and the input is as it was if no path names it.

How many leaves there are is a matter of the driving arrays alone, where these are all in the input
to begin with.
-/

set_option autoImplicit false

namespace Sweep

open Expansion Itinerary Delivery Files

namespace Delivery

/-- A run that does not stop stores all leaves. -/
theorem Stop.of_ok {plan : Plan} {home : Place} {way : Itinerary} {stored failed : List Document}
    {outcome : Outcome} {made : List Place} (h : Stop plan home way stored outcome failed made)
    (hok : outcome = .ok ()) :
    way.leaves = stored ∧ way.ending = .ok () ∧ made = [] := by
  cases h with
  | behind hw => exact ⟨hw, hok, rfl⟩
  | before => exact absurd hok (by simp)
  | halfway => exact absurd hok (by simp)

/-- **Along leaves that are all stored**, the paths on record are theirs, and what is on disk
follows from them. -/
theorem stored_of_follow {plan : Plan} {way : Itinerary} {site after : Site}
    (h : way.follow (visit plan (Site.outlet false)) site = (.ok (), after)) :
    ∃ stored : List Stored, stored.map Stored.leaf = way.leaves ∧ way.ending = .ok () ∧
      after.recorded = site.recorded ++ stored.map Stored.path ∧ (∀ s ∈ stored, s.Of plan) ∧
      OnDisk site.files after.files stored [] := by
  obtain ⟨outcome, final, stored, failed, made, hlogged, hrec, hof, hdisk, hstop⟩ :=
    follow_stores plan way site []
  -- the log that the leaves are taken from is of no consequence to the site
  have hcarried : ∀ leaf (past : Site × List Document), visit plan (Site.outlet false) leaf past.1 =
      (((emit plan (Site.outlet false)).logged.outcome leaf past).1,
        ((emit plan (Site.outlet false)).logged.outcome leaf past).2.1) := by
    intro leaf past
    rw [← outcome_emit]
    rfl
  have hsame := follow_of_carried Prod.fst hcarried way (site, [])
  rw [hlogged, h] at hsame
  cases hsame
  obtain ⟨hleaves, hending, rfl⟩ := hstop.of_ok rfl
  exact ⟨stored, hleaves.symm, hending, hrec, hof, hdisk⟩

/-- The places that stored leaves name in a working directory, each once. -/
def written (home : Place) (stored : List Stored) : List Place :=
  (stored.map fun s => named home s.path).dedup

theorem length_written_le (home : Place) (stored : List Stored) :
    (written home stored).length ≤ stored.length := by
  have hl := (List.dedup_sublist (stored.map fun s => named home s.path)).length_le
  rwa [List.length_map] at hl

theorem length_written_eq_iff (home : Place) (stored : List Stored) :
    (written home stored).length = stored.length ↔
      (stored.map fun s => named home s.path).Nodup := by
  rw [← List.dedup_eq_self, written]
  constructor
  · intro hl
    refine (List.dedup_sublist _).eq_of_length ?_
    rw [hl, List.length_map]
  · intro he
    rw [he, List.length_map]

/-- **A file that no stored leaf names reads as before.** -/
theorem OnDisk.read {old new : Tree} {stored : List Stored} {made : List Place}
    (h : OnDisk old new stored made) {path text : String}
    (hn : ∀ s ∈ stored, named old.home s.path ≠ named old.home path)
    (hr : old.read path = .ok text) : new.read path = .ok text :=
  Tree.read_of_kept h.home (fun place hp => (h.directory place).2 (.inl hp))
    (h.other _ hn text).2 hr

end Delivery

namespace CommandLine

/-- A run that succeeds is one of a plan on the document of the input, and what it reports is told
by the site. -/
theorem simulate_of_success {args : Arguments} {files : Tree}
    (h : (simulate args files).status = 0) :
    ∃ plan doc final, Begins args files plan doc ∧
      (itinerary plan.bindings plan.expand doc).follow (visit plan (Site.outlet args.dryRun))
        (Site.ofTree files) = (.ok (), final) ∧
      simulate args files =
        ⟨0, lines ((if args.isLoud then final.announced else []) ++
          [summaryLine args.dryRun final.recorded.length]), "", final.files⟩ := by
  rw [simulate] at h ⊢
  rcases run_cases args (Site.outlet args.dryRun) (Site.ofTree files) with
    ⟨failure, he⟩ | ⟨plan, doc, hbegins, hcarry⟩
  · rw [he] at h
    exact absurd h (by simp)
  · have hrun := run_emit_apply plan (Site.outlet args.dryRun) doc (Site.ofTree files)
    cases hway :
      (itinerary plan.bindings plan.expand doc).follow (visit plan (Site.outlet args.dryRun))
        (Site.ofTree files) with
    | mk outcome final =>
      rw [hway] at hrun
      rw [hcarry outcome final hrun] at h ⊢
      cases outcome with
      | error fault => exact absurd h (by simp [inContext])
      | ok done => exact ⟨plan, doc, final, hbegins, hway, rfl⟩

theorem read_of_begins {args : Arguments} {files : Tree} {plan : Plan} {doc : Document}
    (h : Begins args files plan doc) : ∃ text, files.read args.input = .ok text := by
  have hd := h.document
  rw [documentIn] at hd
  split at hd
  · exact absurd hd (by simp)
  · split at hd
    · exact absurd hd (by simp)
    · next text ht => exact ⟨text, ht⟩

/-- **What a successful run leaves.** Every leaf was stored, in their order; on disk is the last
text for each place that they name in the working directory, and all else as it was. The number
reported is that of the leaves, which is the product of the lengths of the driving arrays where the
input holds them all. There are that many files exactly if no two leaves name one place; and the
input is as it was if no leaf names it. -/
theorem outputs_of_real_run {args : Arguments} {files : Tree} (hreal : args.dryRun = false)
    (hok : (simulate args files).status = 0) :
    ∃ plan doc stored, Begins args files plan doc ∧
      stored.map Stored.leaf = (itinerary plan.bindings plan.expand doc).leaves ∧
      (∀ s ∈ stored, s.Of plan) ∧
      OnDisk files (simulate args files).files stored [] ∧
      (simulate args files).standardOutput =
        lines ((if args.verbose then stored.map Stored.path else []) ++
          [summaryLine false stored.length]) ∧
      (∀ sizes,
        List.Forall₂ (fun driver size => arrayLength doc driver = .ok size) plan.expand sizes →
          stored.length = sizes.prod) ∧
      (written files.home stored).length ≤ stored.length ∧
      ((written files.home stored).length = stored.length ↔
        (stored.map fun s => named files.home s.path).Nodup) ∧
      ((∀ s ∈ stored, named files.home s.path ≠ named files.home args.input) →
        (simulate args files).files.read args.input = files.read args.input) := by
  obtain ⟨plan, doc, final, hbegins, hfollow, hreport⟩ := simulate_of_success hok
  rw [hreal] at hfollow
  obtain ⟨stored, hleaves, hending, hrec, hof, hdisk⟩ := stored_of_follow hfollow
  have hannounced : final.announced = stored.map Stored.path := by
    have hkeep := follow_induction (P := fun site : Site => site.announced = site.recorded)
      (announced_visit plan false)
      (itinerary plan.bindings plan.expand doc)
        (show (Site.ofTree files).announced = (Site.ofTree files).recorded from rfl)
    rw [hfollow, hrec] at hkeep
    exact hkeep
  obtain ⟨bindings, hb, hm⟩ := make_of_plan hbegins.planned
  rw [hreport]
  refine ⟨plan, doc, stored, hbegins, hleaves, hof, hdisk, ?_, fun sizes hsizes => ?_,
    length_written_le _ stored, length_written_eq_iff _ stored, fun hinput => ?_⟩
  · have hcount : final.recorded.length = stored.length := by
      rw [hrec]
      simp [Site.ofTree]
    rw [hcount, hannounced, hreal, Arguments.isLoud, hreal, Bool.or_false]
  · rw [← List.length_map Stored.leaf, hleaves]
    rw [Plan.bindings_of_make hm] at hending ⊢
    exact length_leaves hb (Plan.nodup_driven hb hm) hsizes hending
  · obtain ⟨text, ht⟩ := read_of_begins hbegins
    rw [ht]
    exact hdisk.read hinput ht

/-- One file for every element of `a` in a file. -/
def perElement (input : String) : Arguments where
  output := "\x7ba\x7d.json"
  input := input
  render := []
  bind := []
  verbose := false
  dryRun := false

/-- Two elements with a name each, in the working directory and in the root. -/
def twoNames : Tree :=
  .ofFilesIn ["home".toList, "me".toList] [("in.json", "\x7b\"a\":[\"x\",\"/x\"]\x7d")]

theorem outputs_of_two_names :
    (perElement "in.json").dryRun = false ∧ (simulate (perElement "in.json") twoNames).status = 0 ∧
      (simulate (perElement "in.json") twoNames).standardOutput = "✓ Generated 2 files\n" ∧
      (simulate (perElement "in.json") twoNames).files.files =
        [("in.json", "\x7b\"a\":[\"x\",\"/x\"]\x7d"), ("x.json", "\x7b\n  \"a\": \"x\"\n\x7d\n"),
          ("/x.json", "\x7b\n  \"a\": \"/x\"\n\x7d\n")] ∧
      ∃ plan doc stored, Begins (perElement "in.json") twoNames plan doc ∧
        stored.map Stored.leaf = (itinerary plan.bindings plan.expand doc).leaves ∧
        OnDisk twoNames (simulate (perElement "in.json") twoNames).files stored [] ∧
        ((written twoNames.home stored).length = stored.length ↔
          (stored.map fun s => named twoNames.home s.path).Nodup) := by
  have hok : (simulate (perElement "in.json") twoNames).status = 0 := by decide +kernel
  obtain ⟨plan, doc, stored, hbegins, hleaves, -, hdisk, -, -, -, hcount, -⟩ :=
    outputs_of_real_run rfl hok
  exact ⟨rfl, hok, by decide +kernel, by decide +kernel, plan, doc, stored, hbegins, hleaves, hdisk,
    hcount⟩

/-- Two elements with one name. -/
def oneName : Tree := .ofFiles [("in.json", "\x7b\"a\":[1,1]\x7d")]

/-- An element with the name of the file it is in. -/
def ownName : Tree := .ofFiles [("1.json", "\x7b\"a\":[1]\x7d")]

/-- An element with the name of the file it is in, spelled from the root. -/
def ownPath : Tree :=
  .ofFilesIn ["home".toList, "me".toList] [("in.json", "\x7b\"a\":[\"/home/me/in\"]\x7d")]

/-- **Paths can collide**, with each other and with the input, by its own path or another one: of
two files that are reported one is on disk, and a file that is reported stands in the place of the
input. -/
theorem outputs_can_collide :
    ((simulate (perElement "in.json") oneName).status = 0 ∧
        (simulate (perElement "in.json") oneName).standardOutput = "✓ Generated 2 files\n" ∧
        (simulate (perElement "in.json") oneName).files.files =
          [("in.json", "\x7b\"a\":[1,1]\x7d"), ("1.json", "\x7b\n  \"a\": 1\n\x7d\n")]) ∧
      ((simulate (perElement "1.json") ownName).status = 0 ∧
        ownName.files = [("1.json", "\x7b\"a\":[1]\x7d")] ∧
        (simulate (perElement "1.json") ownName).files.files =
          [("1.json", "\x7b\n  \"a\": 1\n\x7d\n")]) ∧
      (simulate (perElement "in.json") ownPath).status = 0 ∧
        ownPath.files = [("in.json", "\x7b\"a\":[\"/home/me/in\"]\x7d")] ∧
        (simulate (perElement "in.json") ownPath).files.files =
          [("in.json", "\x7b\n  \"a\": \"/home/me/in\"\n\x7d\n")] :=
  ⟨⟨by decide +kernel, by decide +kernel, by decide +kernel⟩,
    ⟨by decide +kernel, by decide +kernel, by decide +kernel⟩,
    by decide +kernel, by decide +kernel, by decide +kernel⟩

end CommandLine

end Sweep
