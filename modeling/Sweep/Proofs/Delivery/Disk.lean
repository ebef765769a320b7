import Sweep.Proofs.Delivery.Site
import Sweep.Proofs.Expansion.Copies

/-!
# What a run leaves on disk

A real run stores the drafts of its leaves one after the other, and stops at the first one that it
cannot store. What is on disk then follows from the leaves that were stored: at the place that each
path names in the working directory the text of the last one that names it, directories on the way
to each of them, and all else as it was (`OnDisk`). The leaf at which the run stops adds nothing to
that, unless the file system refuses it; then there may be directories on its way (`Stop`).

> `disk_after_run`: this holds after every run, and the leaves handed over are those stored and the
> one it stopped at.

The faults that say something about the leaf alone (`Unstorable`) are all found before the first
file is touched.

One leaf is `visit_real_cases`; `OnDisk.cons` and `Stop.cons` put a stored leaf in front of what
comes after it.
-/

set_option autoImplicit false

namespace Sweep.Delivery

open Expansion Itinerary Files

/-- A leaf that is stored: the leaf, its path, and the text in the file. -/
structure Stored where
  leaf : Document
  path : String
  text : String

/-- Path and text are those of the leaf with its values rendered. -/
structure Stored.Of (plan : Plan) (s : Stored) : Prop where
  rendered : (renderAll plan.render s.leaf).outcome = .ok ()
  path : plan.output.render (renderAll plan.render s.leaf).document = .ok s.path
  text : ∃ format, FileFormat.ofPath s.path = .ok format ∧
    format.encode (renderAll plan.render s.leaf).document = .ok s.text

/-- How a tree stands to the one before, when leaves were stored and directories made besides. The
paths are those of its working directory, which stays. -/
structure OnDisk (old new : Tree) (stored : List Stored) (made : List Place) : Prop where
  home : new.home = old.home
  /-- A file that leaves name holds the text of the last one of them. -/
  last : ∀ front s back, stored = front ++ s :: back →
    (∀ later ∈ back, named old.home later.path ≠ named old.home s.path) →
    new.find? (named old.home s.path) = some (.file s.text)
  /-- Any other file is what it was. -/
  other : ∀ place, (∀ s ∈ stored, named old.home s.path ≠ place) →
    ∀ content, new.find? place = some (.file content) ↔ old.find? place = some (.file content)
  /-- The directories are those that were there, those on the way of the stored leaves, and those
  made. -/
  directory : ∀ place, new.find? place = some .directory ↔
    old.find? place = some .directory ∨
      (∃ s ∈ stored, place ∈ ancestors old.home s.path) ∨ place ∈ made

/-- Why a leaf cannot be stored, whatever is on disk. -/
inductive Unstorable (plan : Plan) (leaf : Document) : Fault → Prop where
  /-- a value to render does not render -/
  | values {fault : Fault} (hv : (renderAll plan.render leaf).outcome = .error fault) :
    Unstorable plan leaf fault
  /-- the path does not render -/
  | path {fault : Fault} (hv : (renderAll plan.render leaf).outcome = .ok ())
    (hp : plan.output.render (renderAll plan.render leaf).document = .error fault) :
    Unstorable plan leaf fault
  /-- the path names no format -/
  | format {path : String} {fault : Fault} (hv : (renderAll plan.render leaf).outcome = .ok ())
    (hp : plan.output.render (renderAll plan.render leaf).document = .ok path)
    (hf : FileFormat.ofPath path = .error fault) : Unstorable plan leaf fault
  /-- the format has no text for the document -/
  | text {path : String} {format : FileFormat} {why : EncodeFault}
    (hv : (renderAll plan.render leaf).outcome = .ok ())
    (hp : plan.output.render (renderAll plan.render leaf).document = .ok path)
    (hf : FileFormat.ofPath path = .ok format)
    (he : format.encode (renderAll plan.render leaf).document = .error why) :
    Unstorable plan leaf (.unencodable path why)

/-- Where a run along an itinerary stops, once certain leaves are stored: with which outcome, at
which leaf if it is not behind the last one, and which directories it made for that leaf. -/
inductive Stop (plan : Plan) (home : Place) (way : Itinerary) (stored : List Document) :
    Outcome → List Document → List Place → Prop where
  /-- behind the last leaf -/
  | behind (hw : way.leaves = stored) : Stop plan home way stored way.ending [] []
  /-- at a leaf that cannot be stored, before any file is touched -/
  | before {leaf : Document} {rest : List Document} {fault : Fault}
    (hw : way.leaves = stored ++ leaf :: rest) (hl : Unstorable plan leaf fault) :
    Stop plan home way stored (.error fault) [leaf] []
  /-- at a leaf that the file system refuses; directories on its way may have been made by then -/
  | halfway {s : Stored} {rest : List Document} {path : String} {why : Refusal} {made : List Place}
    (hw : way.leaves = stored ++ s.leaf :: rest) (hs : s.Of plan)
    (hm : made ⊆ ancestors home s.path) :
    Stop plan home way stored (.error (.refused path why)) [s.leaf] made

/-! ## Trees one after the other -/

theorem OnDisk.refl (tree : Tree) : OnDisk tree tree [] [] where
  home := rfl
  last := by simp
  other := fun _ _ _ => Iff.rfl
  directory := by simp

theorem OnDisk.cons {old mid new : Tree} {s : Stored} {rest : List Stored} {made : List Place}
    (h₁ : OnDisk old mid [s] []) (h₂ : OnDisk mid new rest made) :
    OnDisk old new (s :: rest) made := by
  obtain ⟨hhome, hlast₂, hother₂, hdirectory₂⟩ := h₂
  rw [h₁.home] at hhome hlast₂ hother₂ hdirectory₂
  refine ⟨hhome, ?last, ?other, ?directory⟩
  case last =>
    intro front t back heq hlast
    cases front with
    | nil =>
      -- no later leaf names this file, so they leave it as it was written
      obtain ⟨rfl, rfl⟩ := List.cons.inj heq
      exact (hother₂ _ hlast _).2 (h₁.last [] s [] rfl (by simp))
    | cons first front =>
      obtain ⟨rfl, rfl⟩ := List.cons.inj heq
      exact hlast₂ front t back rfl hlast
  case other =>
    intro place hne content
    rw [hother₂ place fun t ht => hne t (List.mem_cons_of_mem s ht)]
    exact h₁.other place (by simpa using hne s) content
  case directory =>
    intro place
    rw [hdirectory₂, h₁.directory]
    simp only [List.mem_cons, List.not_mem_nil, or_false, or_assoc, exists_eq_or_imp,
      exists_eq_left]

/-- Directories that were gained count as made. -/
theorem onDisk_of_gains {places : List Place} {old new : Tree} (h : Tree.Gains places old new) :
    ∃ made, made ⊆ places ∧ OnDisk old new [] made := by
  refine ⟨places.filter (new.find? · = some .directory), fun _ => List.mem_of_mem_filter, h.home,
    by simp, ?_, ?_⟩
  · exact fun place _ content => h.file_iff place content
  · intro place
    rw [h.directory_iff place]
    simp

/-- A file that was written has only directories on its way by then, those that were gained among
them. -/
theorem onDisk_of_write {old mid new : Tree} {s : Stored}
    (hg : Tree.Gains (ancestors old.home s.path) old mid)
    (hw : mid.write s.path s.text = .ok new) : OnDisk old new [s] [] := by
  obtain ⟨hway, hnone, hnew⟩ := Tree.write_eq_ok hw
  have hput := Tree.find?_put hnone (.file s.text)
  rw [← hnew, hg.home] at hput
  rw [hg.home] at hway hnone
  constructor
  case home => rw [hnew, Tree.home_put, hg.home]
  case last =>
    intro front t back heq _
    have ht : t ∈ [s] := by simp [heq]
    rw [List.mem_singleton.1 ht, hput, if_pos rfl]
  case other =>
    intro place hother content
    rw [hput, if_neg (Ne.symm (hother s (by simp)))]
    exact hg.file_iff place content
  case directory =>
    intro place
    have hdir : mid.find? place = some .directory ↔
        old.find? place = some .directory ∨ place ∈ ancestors old.home s.path := by
      rw [hg.directory_iff place]
      exact or_congr_right ⟨And.left, fun hp => ⟨hp, hway place hp⟩⟩
    rw [hput]
    by_cases hp : place = named old.home s.path
    · -- no directory was there before, and the file is not on its own way
      rw [hp] at hdir ⊢
      simpa using hdir.not.1 hnone
    · rw [if_neg hp, hdir]
      simp

/-! ## One leaf -/

theorem unstorable_of_draft {plan : Plan} {leaf : Document} {fault : Fault}
    (hd : draft plan leaf = .error fault) :
    Unstorable plan leaf fault := by
  rcases draft_eq_error hd with hr | ⟨hr, hp⟩
  · exact .values hr
  · exact .path hr hp

/-- **A draft can be stored, or there is a reason in the leaf** why it cannot. -/
theorem stored_or_unstorable {plan : Plan} {leaf : Document} {d : Draft}
    (hd : draft plan leaf = .ok d) :
    (∃ text, d.text = .ok text ∧ Stored.Of plan ⟨leaf, d.path, text⟩) ∨
      ∃ fault, d.text = .error fault ∧ Unstorable plan leaf fault := by
  obtain ⟨hr, hp, hdoc⟩ := draft_eq_ok hd
  rw [Draft.text, hdoc]
  cases hf : FileFormat.ofPath d.path with
  | error fault => exact .inr ⟨fault, rfl, .format hr hp hf⟩
  | ok format =>
    dsimp only
    cases he : format.encode (renderAll plan.render leaf).document with
    | error why => exact .inr ⟨_, rfl, .text hr hp hf he⟩
    | ok text => exact .inl ⟨text, rfl, hr, hp, format, hf, he⟩

/-- **A leaf that is visited** cannot be stored and no file is touched, or it is stored, or the file
system refuses it. -/
theorem visit_real_cases (plan : Plan) (leaf : Document) (site : Site) :
    (∃ fault, visit plan (Site.outlet false) leaf site = (.error fault, site) ∧
      Unstorable plan leaf fault) ∨
      ∃ s : Stored, s.leaf = leaf ∧ s.Of plan ∧ ∃ files,
        (visit plan (Site.outlet false) leaf site =
          (.ok (), ({ site with files } : Site).noted s.path) ∧
            OnDisk site.files files [s] []) ∨
          ∃ path why, visit plan (Site.outlet false) leaf site =
            (.error (.refused path why), { site with files }) ∧ ∃ made,
              made ⊆ ancestors site.files.home s.path ∧ OnDisk site.files files [] made := by
  cases hd : draft plan leaf with
  | error fault =>
    left
    exact ⟨fault, by rw [visit_of_error hd]; rfl, unstorable_of_draft hd⟩
  | ok d =>
    have hv : visit plan (Site.outlet false) leaf = handOver (Site.outlet false) d :=
      visit_of_ok hd _
    have hhand := handOver_real d site
    rcases stored_or_unstorable hd with ⟨text, ht, hs⟩ | ⟨fault, ht, hl⟩
    · right
      rw [ht] at hhand
      refine ⟨⟨leaf, d.path, text⟩, rfl, hs, ?_⟩
      obtain ⟨mid, hg, ⟨path, why, hdep⟩ | ⟨written, hw, hdep⟩⟩ :=
        deposit_cases site.files d.path text
      · simp only [hdep] at hhand
        exact ⟨mid, .inr ⟨path, why, by rw [hv, hhand], onDisk_of_gains hg⟩⟩
      · simp only [hdep] at hhand
        exact ⟨written, .inl ⟨by rw [hv, hhand], onDisk_of_write hg hw⟩⟩
    · left
      rw [ht] at hhand
      exact ⟨fault, by rw [hv, hhand], hl⟩

/-! ## All leaves -/

theorem outcome_logged_emit (plan : Plan) (outlet : Outlet (StateM Site)) (leaf : Document)
    (site : Site) (past : List Document) :
    (emit plan outlet).logged.outcome leaf (site, past) =
      ((visit plan outlet leaf site).1, ((visit plan outlet leaf site).2, past ++ [leaf])) := by
  rw [← outcome_emit]
  rfl

theorem Stop.cons {plan : Plan} {home : Place} {leaf : Document}
    {leaves stored failed : List Document} {ending outcome : Outcome} {made : List Place}
    (h : Stop plan home ⟨leaves, ending⟩ stored outcome failed made) :
    Stop plan home ⟨leaf :: leaves, ending⟩ (leaf :: stored) outcome failed made := by
  cases h with
  | behind hw => exact .behind (congrArg (leaf :: ·) hw)
  | before hw hl => exact .before (congrArg (leaf :: ·) hw) hl
  | halfway hw hs hm => exact .halfway (congrArg (leaf :: ·) hw) hs hm

/-- **Along the leaves of a real run**, what is stored and where it stops settles what is on
disk. -/
theorem follow_stores (plan : Plan) (way : Itinerary) (site : Site) (past : List Document) :
    ∃ outcome after stored failed made,
      way.follow (emit plan (Site.outlet false)).logged.outcome (site, past) =
          (outcome, (after, past ++ (stored.map Stored.leaf ++ failed))) ∧
        after.recorded = site.recorded ++ stored.map Stored.path ∧ (∀ s ∈ stored, s.Of plan) ∧
        OnDisk site.files after.files stored made ∧
        Stop plan site.files.home way (stored.map Stored.leaf) outcome failed made := by
  obtain ⟨leaves, ending⟩ := way
  induction leaves generalizing site past with
  | nil =>
    refine ⟨ending, site, [], [], [], ?_, by simp, by simp, .refl _, .behind rfl⟩
    rw [follow_nil, List.map_nil, List.append_nil, List.append_nil]
    rfl
  | cons leaf rest ih =>
    have hv := outcome_logged_emit plan (Site.outlet false) leaf site past
    rcases visit_real_cases plan leaf site with
      ⟨fault, he, hl⟩ | ⟨s, rfl, hs, files, ⟨he, hdisk⟩ | ⟨path, why, he, made, hm, hdisk⟩⟩
    · rw [he] at hv
      exact ⟨_, site, [], [leaf], [], follow_cons_of_error hv, by simp, by simp, .refl _,
        .before rfl hl⟩
    · rw [he] at hv
      obtain ⟨outcome, after, stored, failed, made, hf, hrec, hof, hrest, hstop⟩ :=
        ih (({ site with files } : Site).noted s.path) (past ++ [s.leaf])
      have hhome : (({ site with files } : Site).noted s.path).files.home = site.files.home :=
        hdisk.home
      rw [hhome] at hstop
      refine ⟨outcome, after, s :: stored, failed, made, ?_, ?_, ?_, hdisk.cons hrest, hstop.cons⟩
      · rw [follow_cons_of_ok hv, hf]
        simp
      · rw [hrec]
        simp [Site.noted]
      · exact List.forall_mem_cons.2 ⟨hs, hof⟩
    · rw [he] at hv
      exact ⟨_, { site with files }, [], [s.leaf], made, follow_cons_of_error hv, by simp,
        by simp, hdisk, .halfway rfl hs hm⟩

/-- **What is on disk after a run** follows from the leaves that were stored, the first ones of its
itinerary. The leaves handed over are these and the one at which the run stopped, if any; the paths
on record are those of the stored ones, in their order. -/
theorem disk_after_run (plan : Plan) (doc : Document) (files : Tree) :
    ∃ outcome site stored failed made,
      plan.run (emit plan (Site.outlet false)).logged doc (Site.ofTree files, []) =
          ((outcome, doc), (site, stored.map Stored.leaf ++ failed)) ∧
        site.recorded = stored.map Stored.path ∧ (∀ s ∈ stored, s.Of plan) ∧
        OnDisk files site.files stored made ∧
        Stop plan files.home (itinerary plan.bindings plan.expand doc) (stored.map Stored.leaf)
          outcome failed made := by
  have hlog : (emit plan (Site.outlet false)).logged.Preserves :=
    Sink.preserves_logged fun leaf site =>
      (Sink.preserves_iff _).1 (preserves_emit plan _) leaf site
  obtain ⟨outcome, site, stored, failed, made, hf, hrec, hrest⟩ :=
    follow_stores plan (itinerary plan.bindings plan.expand doc) (Site.ofTree files) []
  refine ⟨outcome, site, stored, failed, made, ?_, hrec, hrest⟩
  rw [Plan.run, expand_apply hlog, hf, List.nil_append]

end Sweep.Delivery
