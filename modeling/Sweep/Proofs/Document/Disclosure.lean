import Mathlib
import Sweep.Proofs.Document.Display
import Sweep.Proofs.Toml.Privacy

/-!
# Where a document shows the private name of dates

Both formats write a document that was read from TOML without the private name of dates, however
deep the dates lie. What a placeholder shows of a value has the name exactly if a date lies in a
list or table that is shown as a whole: such a value is shown as it stands and not with its dates as
texts.
-/

set_option autoImplicit false

namespace Sweep

/-- What is read from a text that neither contains the private name nor escapes any character is
discreet. -/
theorem Document.discreet_of_decode {text : String} {doc : Document}
    (h : FileFormat.toml.decode? text = some doc) (hname : ¬ Leaks text.toList)
    (hs : '\\' ∉ text.toList) : doc.Discreet := by
  rw [FileFormat.decode?, Toml.readTable?, Option.map_map] at h
  obtain ⟨items, hread, rfl⟩ := Option.map_eq_some_iff.1 h
  have hitems := Toml.Item.every_table_iff.1 (Toml.discreet_of_readItems? hname hs hread)
  constructor
  · simp only [Function.comp_apply, Toml.Item.toEntries_eq_map]
    exact List.forall_mem_map.2 fun entry hm => (hitems entry hm).1
  · simp only [Function.comp_apply, Toml.Item.toEntries_eq_map]
    exact List.forall_mem_map.2 fun entry hm => Toml.Item.Discreet.toValue (hitems entry hm).2

/-- **Of a document that was read from TOML the private name of dates is shown exactly where a date
lies in a list or a table that is shown as a whole.** No file has it, in either format. A
placeholder shows it of no other value, and neither do the conversions to plain text; and what is
shown of a list or a table is the line of JSON for it exactly if it hides no date.

The text does not contain the name. One with escapes may spell it all the same, so what it denotes
must be discreet. -/
theorem shown_iff_hidesDate {text : String} {doc : Document}
    (h : FileFormat.toml.decode? text = some doc) (hname : ¬ Leaks text.toList)
    (hescape : '\\' ∈ text.toList → doc.Discreet) :
    (∀ (format : FileFormat) (written : String), format.encode doc = .ok written →
      ¬ Leaks written.toList) ∧
    ∀ v, doc.HasPart v →
      (Leaks v.display ↔ v.HidesDate) ∧
      (∀ c : Conversion, c.directive.verb = .s ∨ c.directive.verb = .v →
        ∃ shown, c.apply v = .ok (c.before.toList ++ shown ++ c.after.toList) ∧
          (Leaks shown → v.HidesDate) ∧
          (v.HidesDate → c.directive.precision = none → Leaks shown)) ∧
      (v.kind = .list ∨ v.kind = .table → v.datetime? = none →
        (v.display = Json.compact (Json.plain v) ↔ ¬ v.HidesDate)) := by
  have hdoc : doc.Discreet := by
    by_cases hs : '\\' ∈ text.toList
    · exact hescape hs
    · exact Document.discreet_of_decode h hname hs
  refine ⟨fun format written he => ?_, fun v hp => ?_⟩
  · cases format with
    | toml => exact hdoc.not_leaks_toml he
    | json => exact hdoc.not_leaks_json he
  · have hv : v.Discreet := hdoc.part hp
    refine ⟨hv.leaks_display_iff, fun c hverb => ?_, hv.display_eq_compact_plain_iff⟩
    refine ⟨c.directive.fill (c.directive.spellPlain v), ?_, fun hl => ?_, fun hd hprecision => ?_⟩
    · rw [Conversion.apply, Directive.spell_eq_spellPlain hverb]
    · exact hv.leaks_display_iff.1 (Directive.leaks_fill_spellPlain hl)
    · rw [Directive.spellPlain, hprecision, Directive.fill, Directive.leaks_fillSpaces_iff]
      exact hv.leaks_display_iff.2 hd

/-- A text with a date in a list. -/
def holidays : String := "a = [1979-05-27]\n"

def holiday : Value := .ofDatetime "1979-05-27"

theorem decode?_holidays : FileFormat.toml.decode? holidays = some ⟨[("a", .list [holiday])]⟩ := by
  have hread :
    Toml.readItems? holidays = some [("a", .list [.datetime (.date ⟨1979, 5, 27⟩)])] := by cbv
  have hentries : Toml.Item.toEntries [("a", .list [.datetime (.date ⟨1979, 5, 27⟩)])] =
    [("a", .list [holiday])] := by cbv
  rw [FileFormat.decode?, Toml.readTable?, hread, Option.map_some, Option.map_some, hentries]

theorem not_leaks_holidays :
    ¬ Leaks holidays.toList := (silent_of_notMem (by simp [holidays])).not_leaks

/-- The list hides a date and shows the name; the date in it does not, and neither do the files. -/
theorem shown_iff_hidesDate_holidays :
    ¬ Leaks holidays.toList ∧ '\\' ∉ holidays.toList ∧
      (∀ (format : FileFormat) (written : String),
        format.encode ⟨[("a", .list [holiday])]⟩ = .ok written → ¬ Leaks written.toList) ∧
      Leaks (Value.list [holiday]).display ∧ ¬ Leaks holiday.display := by
  have hescape : '\\' ∉ holidays.toList := by simp [holidays]
  obtain ⟨hfiles, hshown⟩ := shown_iff_hidesDate decode?_holidays not_leaks_holidays fun hm =>
    absurd hm hescape
  have hlist : Document.HasPart ⟨[("a", .list [holiday])]⟩ (.list [holiday]) :=
    ⟨_, List.mem_cons_self, .self⟩
  have hdate : Document.HasPart ⟨[("a", .list [holiday])]⟩ holiday :=
    ⟨_, List.mem_cons_self, .item List.mem_cons_self .self⟩
  have hstamp : holiday.datetime? ≠ none := Option.some_ne_none "1979-05-27"
  refine ⟨not_leaks_holidays, hescape, hfiles,
    (hshown _ hlist).1.2 ⟨rfl, holiday, .item List.mem_cons_self .self, hstamp⟩, ?_⟩
  rw [(hshown _ hdate).1]
  exact fun hd => hstamp hd.1

/-- **A date in a list is shown with its private name**, where JSON writes its text. -/
theorem display_of_date_in_list :
    FileFormat.toml.decode? "a = [1979-05-27]\n" = some ⟨[("a", .list [holiday])]⟩ ∧
      ¬ Leaks "a = [1979-05-27]\n".toList ∧
      String.ofList (Value.list [holiday]).display =
        "[\x7b\"$__toml_private_datetime\":\"1979-05-27\"\x7d]" ∧
      String.ofList (Json.compact (Json.plain (.list [holiday]))) = "[\"1979-05-27\"]" :=
  ⟨decode?_holidays, not_leaks_holidays, by cbv, by cbv⟩

end Sweep
