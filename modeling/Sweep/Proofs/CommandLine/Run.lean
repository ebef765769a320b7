import Mathlib
import Sweep.CommandLine.Run
import Sweep.Proofs.Delivery.Templates

/-!
# What comes before a run

The command line makes a plan, loads the document and has the plan check it, and only then runs the
plan (`run_cases`). None of the three steps changes a file, so whatever they find is found before
anything is written. The check is there for the texts that are to be rendered, and this file settles
what it is worth:

* it is **enough** (`syntax_faults_before_output`): behind it no text turns out to be no template,
  at no leaf;
* it asks **no more than is used** (`check_iff_of_dry_run`): of the templates that are in the
  document it can refuse only such as stand in an array and are taken by no leaf.

A key to render that leads through an array, to what is a place only once an element of the array is
put there, is no place in the document that is checked, and the check fails on it
(`check_refuses_working_run`).
-/

set_option autoImplicit false

namespace Sweep

open Expansion Delivery Files

namespace CommandLine

/-! ## The steps before a run -/

/-- The document in a file. -/
def documentIn (files : Tree) (path : String) : Except Fault Document :=
  match FileFormat.ofPath path with
  | .error fault => .error fault
  | .ok format =>
    match files.read path with
    | .error why => .error (.refused path why)
    | .ok text =>
      match format.decode? text with
      | some doc => .ok doc
      | none => .error (.undecodable path)

/-- **Loading reads, and changes nothing.** -/
theorem load_storage (path : String) (site : Site) :
    FileFormat.load Site.storage path site = (documentIn site.files path, site) := by
  rw [FileFormat.load, documentIn]
  cases FileFormat.ofPath path with
  | error fault => rfl
  | ok format =>
    simp only [Site.storage, bind, StateT.bind]
    cases site.files.read path with
    | error why => rfl
    | ok text =>
      dsimp only
      cases format.decode? text <;> rfl

/-- What a run has in hand when it begins: a plan, and a document that the plan has checked. -/
structure Begins (args : Arguments) (files : Tree) (plan : Plan) (doc : Document) : Prop where
  planned : args.plan = .ok plan
  document : documentIn files args.input = .ok doc
  checked : plan.check doc = .ok ()

theorem carryOut_of_checked {plan : Plan} {doc : Document} (h : plan.check doc = .ok ())
    (args : Arguments) {outlet : Outlet (StateM Site)} {site final : Site} {outcome : Outcome}
    (hrun : plan.run (emit plan outlet) doc site = ((outcome, doc), final)) :
    carryOut args plan outlet doc site =
      (inContext ("Failed to expand " ++ args.input) outcome, final) := by
  rw [carryOut, h]
  simp only [inContext, bind, StateT.bind, hrun]
  rfl

/-- **A run fails before it has done anything, or it carries out its plan.** -/
theorem run_cases (args : Arguments) (outlet : Outlet (StateM Site)) (site : Site) :
    (∃ failure, run args Site.storage outlet site = (.error failure, site)) ∨
      ∃ plan doc, Begins args site.files plan doc ∧ ∀ outcome final,
        plan.run (emit plan outlet) doc site = ((outcome, doc), final) →
          run args Site.storage outlet site =
            (inContext ("Failed to expand " ++ args.input) outcome, final) := by
  rw [run]
  cases hp : args.plan with
  | error failure => exact .inl ⟨failure, rfl⟩
  | ok plan =>
    simp only [bind, StateT.bind, load_storage]
    cases hd : documentIn site.files args.input with
    | error fault => exact .inl ⟨_, rfl⟩
    | ok doc =>
      dsimp only
      cases hc : plan.check doc with
      | error fault =>
        left
        refine ⟨⟨some "Invalid --render value", fault⟩, ?_⟩
        rw [carryOut, hc]
        rfl
      | ok done =>
        exact .inr ⟨plan, doc, ⟨hp, hd, hc⟩, fun outcome final hrun =>
          carryOut_of_checked hc args hrun⟩

theorem inContext_eq_ok_iff {α : Type} {context : String} {x : Except Fault α} {value : α} :
    inContext context x = .ok value ↔ x = .ok value := by
  cases x <;> simp [inContext]

theorem inContext_eq_error_iff {α : Type} {context : String} {x : Except Fault α}
    {failure : Failure} :
    inContext context x = .error failure ↔
      ∃ fault, x = .error fault ∧ failure = ⟨some context, fault⟩ := by
  cases x <;> simp [inContext, eq_comm]

/-- A plan of the command line is a plan with groups that were declared one by one. -/
theorem make_of_plan {args : Arguments} {plan : Plan} (h : args.plan = .ok plan) :
    ∃ bindings, bindings.Built ∧ Plan.make args.output args.render bindings = .ok plan := by
  rw [Arguments.plan] at h
  obtain ⟨bindings, hb, h⟩ := Except.bind_eq_ok_iff.1 h
  exact ⟨bindings, .ofGroups (inContext_eq_ok_iff.1 hb), inContext_eq_ok_iff.1 h⟩

/-! ## The check is enough -/

/-- **A command line that ends with a fault of its bind groups or of a template** has done
nothing. -/
theorem site_of_isUpFront {args : Arguments} {files : Tree} {failure : Failure} {site : Site}
    (h : run args Site.storage (Site.outlet args.dryRun) (Site.ofTree files) =
      (.error failure, site))
    (hup : failure.fault.IsUpFront) : site = Site.ofTree files := by
  rcases run_cases args (Site.outlet args.dryRun) (Site.ofTree files) with
    ⟨other, he⟩ | ⟨plan, doc, hbegins, hcarry⟩
  · rw [he] at h
    cases h
    rfl
  · obtain ⟨bindings, hb, hm⟩ := make_of_plan hbegins.planned
    obtain ⟨outcome, final, calls, hplain, -, -, hout⟩ :=
      not_isUpFront_of_run plan (Plan.built_bindings hb hm) (Plan.nodup_render hm)
        ((plan.check_eq_ok_iff doc).1 hbegins.checked) args.dryRun (Site.ofTree files)
    rw [hcarry outcome final hplain] at h
    -- the fault is that of the run, which has none of this kind
    obtain ⟨fault, rfl, rfl⟩ := inContext_eq_error_iff.1 (congrArg Prod.fst h)
    exact absurd hup (hout fault rfl)

/-- **Faults of syntax come before output.** Behind a check that succeeded, no leaf of a run and no
run as a whole says of a text that it is no template, in whatever order the values of a leaf are
rendered. So a command line that ends with such a fault, or with one of its bind groups, has written
nothing and told of nothing. -/
theorem syntax_faults_before_output :
    (∀ (output : String) (render : List Key) (bindings : Bindings) (plan : Plan), bindings.Built →
      Plan.make output render bindings = .ok plan → ∀ doc, plan.check doc = .ok () →
      ∀ order : List Key, order.Perm plan.render → ∀ (dry : Bool) (files : Tree),
      ∃ outcome site calls,
        Plan.run { plan with render := order }
          (emit { plan with render := order } (Site.outlet dry)).watched doc
            (Site.ofTree files, []) = ((outcome, doc), (site, calls)) ∧
          (∀ call ∈ calls, ∀ text why, call.answer ≠ .error (.malformedTemplate text why)) ∧
          ∀ text why, outcome ≠ .error (.malformedTemplate text why)) ∧
    ∀ (args : Arguments) (files : Tree) (failure : Failure) (site : Site),
      run args Site.storage (Site.outlet args.dryRun) (Site.ofTree files) = (.error failure, site) →
      failure.fault.IsUpFront → site = Site.ofTree files := by
  refine ⟨?_, fun args files failure site hrun hup => site_of_isUpFront hrun hup⟩
  intro output render bindings plan hb h doc hc order hp dry files
  have hholds : doc.HoldsTemplates order :=
    fun key hk => (plan.check_eq_ok_iff doc).1 hc key (hp.mem_iff.1 hk)
  have hbuilt := Plan.built_bindings hb h
  obtain ⟨outcome, final, calls, -, hrun, hcalls, hout⟩ :=
    not_isUpFront_of_run { plan with render := order } hbuilt
      (hp.nodup_iff.2 (Plan.nodup_render h)) hholds dry
      (Site.ofTree files)
  refine ⟨outcome, final, calls, hrun, ?_, ?_⟩
  · intro call hm text why ha
    exact hcalls call hm _ ha (.inr ⟨text, why, rfl⟩)
  · intro text why ho
    exact hout _ ho (.inr ⟨text, why, rfl⟩)

/-- Two names with a title each, one of which refers to the name. -/
def titled : Document := ⟨[
  ("title", .list [.text "about \x7bname\x7d", .text "untitled"]),
  ("name", .list [.text "a", .text "b"])]⟩

/-- The plan that goes through the titles along with the names. -/
def perTitle : Plan where
  output := ⟨[.placeholder ⟨["name"]⟩ none, .literal ['.', 'j', 's', 'o', 'n']]⟩
  expand := [⟨["name"]⟩]
  render := [⟨["title"]⟩]
  bindings := ⟨[[⟨["title"]⟩, ⟨["name"]⟩]]⟩

theorem make_perTitle :
    Plan.make "\x7bname\x7d.json" [⟨["title"]⟩] ⟨[[⟨["title"]⟩, ⟨["name"]⟩]]⟩ = .ok perTitle := by
      cbv

theorem check_titled : perTitle.check titled = .ok () := by cbv

/-- The titles go through the check, and no leaf finds one that is no template; the brace on the
other command line is found before its file is looked for. -/
theorem syntax_faults_of_titles :
    Bindings.Built ⟨[[⟨["title"]⟩, ⟨["name"]⟩]]⟩ ∧
      Plan.make "\x7bname\x7d.json" [⟨["title"]⟩] ⟨[[⟨["title"]⟩, ⟨["name"]⟩]]⟩ = .ok perTitle ∧
      perTitle.check titled = .ok () ∧
      (∃ outcome site calls,
        perTitle.run (emit perTitle (Site.outlet false)).watched titled (Site.ofTree .empty, []) =
            ((outcome, titled), (site, calls)) ∧
          (∀ call ∈ calls, ∀ text why, call.answer ≠ .error (.malformedTemplate text why)) ∧
          ∀ text why, outcome ≠ .error (.malformedTemplate text why)) ∧
      ∃ site, run ⟨"\x7bname.json", "in.json", [], [], false, false⟩
          Site.storage (Site.outlet false) (Site.ofTree .empty) =
            (.error ⟨some "Invalid output path template",
              .malformedTemplate "\x7bname.json" .unbalancedBraces⟩, site) ∧
        site = Site.ofTree .empty := by
  have hb : Bindings.Built ⟨[[⟨["title"]⟩, ⟨["name"]⟩]]⟩ :=
    .ofGroups (show Bindings.ofGroups [[⟨["title"]⟩, ⟨["name"]⟩]] = .ok _ from rfl)
  have hrun :
    run ⟨"\x7bname.json", "in.json", [], [], false, false⟩ Site.storage (Site.outlet false)
      (Site.ofTree .empty) =
        (.error ⟨some "Invalid output path template",
          .malformedTemplate "\x7bname.json" .unbalancedBraces⟩,
          Site.ofTree .empty) := by cbv
  exact ⟨hb, make_perTitle, check_titled,
    syntax_faults_before_output.1 _ _ _ _ hb make_perTitle _ check_titled _ (.refl _)
      false .empty, _, hrun,
    syntax_faults_before_output.2 _ _ _ _ hrun (.inr ⟨_, _, rfl⟩)⟩

/-! ## The check asks no more than is used -/

/-- **What the check refuses of templates that are in the document.** Behind a dry run that handed
over some leaf, and had no fault at any, a check can only fail on a key that is no place in the
document, or on an element of an array that no leaf took. So with all keys in their places it
succeeds exactly if the elements left over are templates; and the command line, which checks first,
then ends as the run does. -/
theorem check_iff_of_dry_run {output : String} {render : List Key} {bindings : Bindings}
    {plan : Plan} (hb : bindings.Built) (h : Plan.make output render bindings = .ok plan)
    {doc : Document} {files : Tree} {outcome : Outcome} {site : Site} {calls : List Call}
    (hrun : plan.run (emit plan (Site.outlet true)).watched doc (Site.ofTree files, []) =
      ((outcome, doc), (site, calls)))
    (hne : calls ≠ []) (hok : ∀ call ∈ calls, call.answer = .ok ())
    (hfound : ∀ key ∈ plan.render, ∃ held, doc.get key = .ok held) :
    (plan.check doc = .ok () ↔
        ∀ key ∈ plan.render, ∀ items, doc.get key = .ok (.list items) → ∀ item ∈ items,
          (∀ call ∈ calls, call.document.get key ≠ .ok item) → item.IsTemplate) ∧
      (plan.check doc = .ok () → ∀ args : Arguments,
        carryOut args plan (Site.outlet true) doc (Site.ofTree files) =
          (inContext ("Failed to expand " ++ args.input) outcome, site)) := by
  obtain ⟨outcome', final, calls', hplain, hwatched, hcalls⟩ :=
    expand_watched (preserves_emit plan (Site.outlet true))
      plan.bindings plan.expand doc (Site.ofTree files)
  rw [Plan.run, hwatched] at hrun
  cases hrun
  rw [Plan.bindings_of_make h] at hcalls
  have htemplate : ∀ call ∈ calls,
      ∀ key ∈ plan.render, ∃ held, call.document.get key = .ok held ∧ held.IsTemplate := by
    intro call hc
    obtain ⟨-, s, ha⟩ := hcalls.of_mem hc
    rw [hok call hc, outcome_emit] at ha
    exact isTemplate_of_visit (Plan.nodup_render h) ha.symm
  refine ⟨⟨fun hc key hk items hi item hm _ => ?_,
      fun hrest => (plan.check_eq_ok_iff doc).2 fun key hk => ?_⟩,
    fun hc args => carryOut_of_checked hc args hplain⟩
  · obtain ⟨held, hg, hheld⟩ := (plan.check_eq_ok_iff doc).1 hc key hk
    rw [hi] at hg
    cases hg
    rcases hheld with ⟨source, template, he, -⟩ | ⟨others, he, hall⟩
    · exact absurd he (by simp)
    · cases he
      exact hall item hm
  · obtain ⟨held, hg⟩ := hfound key hk
    refine ⟨held, hg, ?_⟩
    -- some leaf holds a text at the key, and that text was in the document
    obtain ⟨call, hc⟩ := List.exists_mem_of_ne_nil calls hne
    obtain ⟨text, ht, source, template, rfl, hs⟩ := htemplate call hc key hk
    rcases text_of_leaf hb (Plan.nodup_driven hb h) (hcalls.of_mem hc).1 hg ht with
      rfl | ⟨items, rfl, -⟩
    · exact .inl ⟨source, template, rfl, hs⟩
    · refine .inr ⟨items, rfl, fun item hm => ?_⟩
      by_cases hr : ∃ call ∈ calls, call.document.get key = .ok item
      · obtain ⟨call, hc, hi⟩ := hr
        obtain ⟨taken, ht, htaken⟩ := htemplate call hc key hk
        rw [hi] at ht
        cases ht
        exact htaken
      · exact hrest key hk items hg item hm fun call hc hi => hr ⟨call, hc, hi⟩

/-- The plan of a path with a label and a size, where the labels go with tables that hold the
sizes. -/
def perLabel : Plan where
  output :=
    ⟨[.placeholder ⟨["label"]⟩ none, .placeholder ⟨["case", "size"]⟩ none,
      .literal ['.', 'j', 's', 'o', 'n']]⟩
  expand := [⟨["label"]⟩, ⟨["case", "size"]⟩]
  render := [⟨["label"]⟩]
  bindings := ⟨[[⟨["label"]⟩, ⟨["case"]⟩]]⟩

theorem make_perLabel :
    Plan.make "\x7blabel\x7d\x7bcase.size\x7d.json" [⟨["label"]⟩] ⟨[[⟨["label"]⟩, ⟨["case"]⟩]]⟩ =
      .ok perLabel := by cbv

/-- A label with one size, and a label that has none. -/
def labelled (second : String) : Document := ⟨[
  ("label", .list [.text "a", .text second]),
  ("case", .list [.table [("size", .list [.text "s"])], .table [("size", .list [])]])]⟩

/-- The site after the dry run on it: the second label was taken by no leaf. -/
def labelledSite : Site := ⟨.empty, ["as.json"], ["as.json"]⟩

/-- The second label is a template, so the check lets the document pass. -/
theorem check_of_labelled :
    Bindings.Built ⟨[[⟨["label"]⟩, ⟨["case"]⟩]]⟩ ∧
      Plan.make "\x7blabel\x7d\x7bcase.size\x7d.json" [⟨["label"]⟩] ⟨[[⟨["label"]⟩, ⟨["case"]⟩]]⟩ =
        .ok perLabel ∧
      perLabel.run (emit perLabel (Site.outlet true)).watched (labelled "b")
        (Site.ofTree .empty, []) =
        ((.ok (), labelled "b"), (labelledSite,
          [⟨⟨[("label", .text "a"), ("case", .table [("size", .text "s")])]⟩, .ok ()⟩])) ∧
      perLabel.check (labelled "b") = .ok () := by
  have hb : Bindings.Built ⟨[[⟨["label"]⟩, ⟨["case"]⟩]]⟩ :=
    .ofGroups (show Bindings.ofGroups [[⟨["label"]⟩, ⟨["case"]⟩]] = .ok _ from rfl)
  have ha : (Value.text "a").IsTemplate := ⟨"a", ⟨[.literal ['a']]⟩, rfl, by cbv⟩
  have hsecond : (Value.text "b").IsTemplate := ⟨"b", ⟨[.literal ['b']]⟩, rfl, by cbv⟩
  have hrun : perLabel.run (emit perLabel (Site.outlet true)).watched (labelled "b")
      (Site.ofTree .empty, []) =
      ((.ok (), labelled "b"), (labelledSite,
        [⟨⟨[("label", .text "a"), ("case", .table [("size", .text "s")])]⟩, .ok ()⟩])) := by cbv
  refine ⟨hb, make_perLabel, hrun,
    (check_iff_of_dry_run hb make_perLabel hrun (by simp) (by simp) ?_).1.2 ?_⟩
  · intro key hk
    obtain rfl := List.mem_singleton.1 hk
    exact ⟨_, rfl⟩
  · intro key hk items hi item hm _
    obtain rfl := List.mem_singleton.1 hk
    cases hi
    rcases List.mem_pair.1 hm with rfl | rfl
    · exact ha
    · exact hsecond

/-- The plan of a path with a name, where tables go with the names and each has a title to
render. -/
def perTable : Plan where
  output := ⟨[.placeholder ⟨["name"]⟩ none, .literal ['.', 'j', 's', 'o', 'n']]⟩
  expand := [⟨["name"]⟩]
  render := [⟨["case", "title"]⟩]
  bindings := ⟨[[⟨["name"]⟩, ⟨["case"]⟩]]⟩

/-- A name with its table. -/
def tabled : Document := ⟨[
  ("name", .list [.text "a"]), ("case", .list [.table [("title", .text "about \x7bname\x7d")]])]⟩

/-- **The check refuses runs that would work**: for the sake of a label that no leaf takes, and of a
title that is in its place only once its table is. -/
theorem check_refuses_working_run :
    (Bindings.ofGroups [[⟨["label"]⟩, ⟨["case"]⟩]] = .ok perLabel.bindings ∧
        Plan.make "\x7blabel\x7d\x7bcase.size\x7d.json" [⟨["label"]⟩] perLabel.bindings =
          .ok perLabel ∧
        perLabel.run (emit perLabel (Site.outlet true)).watched (labelled "\x7bb")
          (Site.ofTree .empty, []) =
          ((.ok (), labelled "\x7bb"), (labelledSite,
            [⟨⟨[("label", .text "a"), ("case", .table [("size", .text "s")])]⟩, .ok ()⟩])) ∧
        perLabel.check (labelled "\x7bb") = .error (.malformedTemplate "\x7bb" .unbalancedBraces)) ∧
      Bindings.ofGroups [[⟨["name"]⟩, ⟨["case"]⟩]] = .ok perTable.bindings ∧
        Plan.make "\x7bname\x7d.json" [⟨["case", "title"]⟩] perTable.bindings = .ok perTable ∧
        perTable.run (emit perTable (Site.outlet true)).watched tabled (Site.ofTree .empty, []) =
          ((.ok (), tabled), (⟨.empty, ["a.json"], ["a.json"]⟩,
            [⟨⟨[("name", .text "a"), ("case", .table [("title", .text "about \x7bname\x7d")])]⟩,
              .ok ()⟩])) ∧
        perTable.check tabled = .error (.notADocument ⟨["case", "title"]⟩ "case") :=
  ⟨⟨rfl, make_perLabel, by cbv, by cbv⟩, rfl, by cbv, by cbv, by cbv⟩

end CommandLine

end Sweep
