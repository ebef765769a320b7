import Sweep.Conversion.Spelling
import Sweep.Proofs.Json.Privacy

/-!
# What is shown of a value

A placeholder shows a date as its text, and so do the verbs for plain text. A list or a table is
shown in one line of JSON, and there only the value itself is asked whether it is a date. So the
private name of dates is shown exactly of the values that a date lies in (`leaks_display_iff`), and
exactly of those the line is not the one that JSON itself would have
(`display_eq_compact_plain_iff`).
-/

set_option autoImplicit false

namespace Sweep

namespace Value

theorem display_of_date {v : Value} {stamp : String} (h : v.datetime? = some stamp) :
    v.display = stamp.toList := by
  rw [display.eq_def, h]

/-- Whatever has parts of its own and is no date is shown in one line of JSON. -/
theorem display_eq_compact {v : Value} (hk : v.kind = .list ∨ v.kind = .table)
    (hd : v.datetime? = none) :
    v.display = Json.compact v := by
  rw [display.eq_def, hd]
  cases v with
  | list | table => rfl
  | null | bool | whole | double | text => rcases hk with hk | hk <;> cases hk

theorem HidesDate.kind {v : Value} (h : v.HidesDate) : v.kind = .list ∨ v.kind = .table := by
  cases v with
  | list => exact .inl rfl
  | table => exact .inr rfl
  | null | bool | whole | double | text =>
    obtain ⟨-, part, hp, hd⟩ := h
    cases hp
    exact absurd rfl hd

theorem Discreet.not_leaks_display {v : Value} (h : v.Discreet) (hd : ¬ v.HidesDate) :
    ¬ Leaks v.display := by
  cases hv : v.datetime? with
  | some stamp =>
    rw [display_of_date hv]
    exact h.stamp hv
  | none =>
    have hquiet : v.Quiet := h.quiet fun _ hp => datetime?_of_not_hidesDate hv hd hp
    rw [display.eq_def, hv]
    cases v with
    | text s => exact h.texts s .self
    | double x => exact (silent_of_isNumeral fun c hc => Double.isNumeral_general hc).not_leaks
    | null | bool | whole | list | table => exact (Json.silent_compact hquiet).not_leaks

/-- **Of a discreet value the private name is shown exactly if a date lies in it.** -/
theorem Discreet.leaks_display_iff {v : Value} (h : v.Discreet) :
    Leaks v.display ↔ v.HidesDate := by
  refine ⟨fun hl => Classical.byContradiction fun hd => h.not_leaks_display hd hl, fun hd => ?_⟩
  rw [display_eq_compact hd.kind hd.1]
  obtain ⟨-, part, hp, hpart⟩ := hd
  exact (Json.leaks_compact_of_date hpart).mono (Json.compact_within hp)

/-- **What is shown of a list or a table is what JSON would write in one line exactly if no date
lies in it.** -/
theorem Discreet.display_eq_compact_plain_iff {v : Value} (h : v.Discreet)
    (hk : v.kind = .list ∨ v.kind = .table) (hv : v.datetime? = none) :
    v.display = Json.compact (Json.plain v) ↔ ¬ v.HidesDate := by
  constructor
  · intro he hd
    have hleaks := h.leaks_display_iff.2 hd
    rw [he] at hleaks
    exact (Json.silent_compact (Json.quiet_plain h)).not_leaks hleaks
  · intro hd
    rw [display_eq_compact hk hv, Json.plain_eq_self fun _ hp =>
      datetime?_of_not_hidesDate hv hd hp]

end Value

namespace Directive

theorem leaks_fillSpaces_iff (d : Directive) {cs : List Char} :
    Leaks (d.fillSpaces cs) ↔ Leaks cs := by
  rw [fillSpaces]
  split
  · exact leaks_append_spaces_iff _
  · exact leaks_spaces_append_iff _

theorem spell_eq_spellPlain {d : Directive} (hd : d.verb = .s ∨ d.verb = .v) (v : Value) :
    d.spell v = .ok (d.spellPlain v) := by
  rcases hd with hd | hd <;> rw [spell.eq_def, hd]

/-- Cutting the plain text of a value and filling it up brings about no name. -/
theorem leaks_fill_spellPlain {d : Directive} {v : Value} (h : Leaks (d.fill (d.spellPlain v))) :
    Leaks v.display := by
  rw [spellPlain, fill, leaks_fillSpaces_iff] at h
  split at h
  · exact h.mono (List.take_prefix _ _).isInfix
  · exact h

end Directive

end Sweep
