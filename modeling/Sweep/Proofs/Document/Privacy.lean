import Sweep.Proofs.Document.Parts

/-!
# Where the private name of dates shows

A date is a table under a name that no file should show, `Value.datetimeField`. Whether that name
occurs in a text that is put together from many pieces (`Leaks`) is decided piece by piece. The name
begins with a dollar sign and has no other, so it cannot begin within a piece that has none; and it
cannot begin within a piece that does not contain it and ends with a character that the name lacks,
such as a closing quote (`Silent`). Escaping the characters of a text, and reading them back from
one, brings about no name that was not there (`Copies`).

A value is discreet if the name occurs in none of its texts, and in no name but those of the dates
in it.
-/

set_option autoImplicit false

namespace Sweep

/-- The private name of dates occurs in a text. -/
def Leaks (cs : List Char) : Prop := Value.datetimeField.toList <:+: cs

instance (cs : List Char) : Decidable (Leaks cs) := inferInstanceAs (Decidable (_ <:+: _))

/-- The private name of dates does not begin within a text, whatever follows the text. -/
def Silent (cs : List Char) : Prop := ∀ ⦃rest : List Char⦄, Leaks (cs ++ rest) → Leaks rest

/-! ## The name in pieces of text -/

theorem head_datetimeField : ∃ rest, Value.datetimeField.toList = '$' :: rest := ⟨_, rfl⟩

theorem not_leaks_nil : ¬ Leaks [] := by decide

/-- A text that contains one with the name contains the name. -/
theorem Leaks.mono {cs all : List Char} (h : Leaks cs) (hi : cs <:+: all) :
    Leaks all := List.IsInfix.trans h hi

theorem leaks_cons_iff {c : Char} (hc : c ≠ '$') {cs : List Char} : Leaks (c :: cs) ↔ Leaks cs := by
  refine ⟨fun h => ?_, fun h => h.mono (List.suffix_cons c cs).isInfix⟩
  rcases List.infix_cons_iff.1 h with hp | hi
  · obtain ⟨rest, hfield⟩ := head_datetimeField
    rw [hfield, List.cons_prefix_cons] at hp
    exact absurd hp.1.symm hc
  · exact hi

/-- What a text begins with ends before the first character that it lacks. -/
theorem front_of_prefix_append_cons {α : Type} {start front back : List α} {q : α} (hq : q ∉ start)
    (h : start <+: front ++ q :: back) : start <+: front := by
  have hcut : front ++ [q] <+: front ++ q :: back :=
    ⟨back, by rw [List.append_assoc, List.singleton_append]⟩
  rcases List.prefix_or_prefix_of_prefix h hcut with hp | hp
  · rcases List.prefix_concat_iff.1 hp with he | hp
    · exact absurd (he ▸ List.mem_append_right front (List.mem_singleton_self q)) hq
    · exact hp
  · exact absurd (hp.subset (List.mem_append_right front (List.mem_singleton_self q))) hq

/-- **A text is cut at a character that the name lacks**: the name is on one side of the cut. -/
theorem leaks_append_cons_iff {q : Char} (hq : q ∉ Value.datetimeField.toList)
    {front back : List Char} :
    Leaks (front ++ q :: back) ↔ Leaks front ∨ Leaks back := by
  constructor
  · intro h
    induction front with
    | nil =>
      refine .inr ((leaks_cons_iff ?_).1 h)
      rintro rfl
      exact hq (by decide)
    | cons c front ih =>
      rcases List.infix_cons_iff.1 h with hp | hi
      · exact .inl (front_of_prefix_append_cons hq hp).isInfix
      · rcases ih hi with hf | hb
        · exact .inl (hf.mono (List.suffix_cons c front).isInfix)
        · exact .inr hb
  · rintro (h | h)
    · exact h.mono (List.prefix_append _ _).isInfix
    · exact h.mono ((List.suffix_cons q back).trans (List.suffix_append _ _)).isInfix

theorem Silent.not_leaks {cs : List Char} (h : Silent cs) : ¬ Leaks cs :=
  fun hl => not_leaks_nil (h (by rwa [List.append_nil]))

theorem silent_nil : Silent [] := fun _ h => h

theorem Silent.append {front back : List Char} (hf : Silent front) (hb : Silent back) :
    Silent (front ++ back) := by
  intro rest h
  rw [List.append_assoc] at h
  exact hb (hf h)

theorem Silent.cons {c : Char} (hc : c ≠ '$') {cs : List Char} (h : Silent cs) : Silent (c :: cs) :=
  fun _ hl => h ((leaks_cons_iff hc).1 hl)

/-- The name does not begin where there is no dollar sign. -/
theorem silent_of_notMem {cs : List Char} (h : '$' ∉ cs) : Silent cs := by
  induction cs with
  | nil => exact silent_nil
  | cons c rest ih =>
    rw [List.mem_cons, not_or] at h
    exact (ih h.2).cons (Ne.symm h.1)

/-- A text without the name is closed by a character that the name lacks. -/
theorem silent_append_cons {cs tail : List Char} (h : ¬ Leaks cs) {q : Char}
    (hq : q ∉ Value.datetimeField.toList) (ht : Silent tail) : Silent (cs ++ q :: tail) := by
  intro rest hl
  rw [List.append_assoc, List.cons_append, leaks_append_cons_iff hq] at hl
  exact ht (hl.resolve_left h)

theorem silent_spaces (count : Nat) : Silent (List.replicate count ' ') :=
  silent_of_notMem fun hm => absurd (List.eq_of_mem_replicate hm) (by decide)

/-- Spaces on either side of a text do not matter. -/
theorem leaks_spaces_append_iff (count : Nat) {cs : List Char} :
    Leaks (List.replicate count ' ' ++ cs) ↔ Leaks cs :=
  ⟨fun h => silent_spaces count h, fun h => h.mono (List.suffix_append _ _).isInfix⟩

theorem leaks_append_spaces_iff (count : Nat) {cs : List Char} :
    Leaks (cs ++ List.replicate count ' ') ↔ Leaks cs := by
  cases count with
  | zero => rw [List.replicate_zero, List.append_nil]
  | succ count =>
    rw [List.replicate_succ, leaks_append_cons_iff (by decide)]
    exact or_iff_left (silent_spaces count).not_leaks

/-! ## Copies -/

/-- The front of a text with some of its characters replaced, by some that begin with a character
which the name lacks and have no dollar sign: what escaping a text makes of it, and what reading one
up to its closing quotes makes of it. -/
inductive Copies : (source copy : List Char) → Prop where
  | nil {source : List Char} : Copies source []
  | keep (c : Char) {source copy : List Char} : Copies source copy →
      Copies (c :: source) (c :: copy)
  | replace (gone : List Char) {c : Char} {more : List Char} {source copy : List Char} :
      c ∉ Value.datetimeField.toList → '$' ∉ more → Copies source copy →
        Copies (gone ++ source) (c :: more ++ copy)

theorem Copies.of_front {source copy : List Char} (h : copy <+: source) : Copies source copy := by
  induction copy generalizing source with
  | nil => exact .nil
  | cons c copy ih =>
    obtain ⟨rest, rfl⟩ := h
    exact (ih ⟨rest, rfl⟩).keep c

/-- What a copy begins with, the source begins with, if it has none of the characters that replace
others. -/
theorem Copies.front {source copy start : List Char} (h : Copies source copy) (hp : start <+: copy)
    (hs : start ⊆ Value.datetimeField.toList) : start <+: source := by
  induction h generalizing start with
  | nil =>
    rw [List.prefix_nil.1 hp]
    exact List.nil_prefix
  | keep c _ ih =>
    cases start with
    | nil => exact List.nil_prefix
    | cons first start =>
      rw [List.cons_prefix_cons] at hp ⊢
      exact ⟨hp.1, ih hp.2 fun _ hm => hs (List.mem_cons_of_mem _ hm)⟩
  | replace gone hc _ _ _ =>
    cases start with
    | nil => exact List.nil_prefix
    | cons first start =>
      rw [List.cons_append, List.cons_prefix_cons] at hp
      exact absurd (hs (hp.1 ▸ List.mem_cons_self)) hc

/-- **A copy contains the name only if its source does.** -/
theorem Copies.leaks {source copy : List Char} (h : Copies source copy) (hl : Leaks copy) :
    Leaks source := by
  induction h with
  | nil => exact absurd hl not_leaks_nil
  | keep c hcopy ih =>
    rcases List.infix_cons_iff.1 hl with hp | hi
    · exact ((hcopy.keep c).front hp (List.Subset.refl _)).isInfix
    · exact (ih hi).mono (List.suffix_cons c _).isInfix
  | @replace gone c more source copy hc hmore _ ih =>
    have hpiece : Silent (c :: more) := by
      refine (silent_of_notMem hmore).cons ?_
      rintro rfl
      exact hc (by decide)
    exact (ih (hpiece hl)).mono (List.suffix_append gone source).isInfix

/-! ## Values -/

namespace Value

theorem IsPart.trans {part inner v : Value} (hp : part.IsPart inner) (hi : inner.IsPart v) :
    part.IsPart v := by
  induction hi with
  | self => exact hp
  | item hm _ ih => exact .item hm ih
  | entry hm _ ih => exact .entry hm ih

/-- The private name occurs in no text of a value, and in no name but those of the dates in it. -/
structure Discreet (v : Value) : Prop where
  texts : ∀ s, (Value.text s).IsPart v → ¬ Leaks s.toList
  names : ∀ entries, (Value.table entries).IsPart v → (Value.table entries).datetime? = none →
    ∀ entry ∈ entries, ¬ Leaks entry.1.toList

/-- The private name occurs in no text and no name of a value. -/
structure Quiet (v : Value) : Prop where
  texts : ∀ s, (Value.text s).IsPart v → ¬ Leaks s.toList
  names : ∀ entries, (Value.table entries).IsPart v → ∀ entry ∈ entries, ¬ Leaks entry.1.toList

/-- A date lies in a value that is none itself. -/
def HidesDate (v : Value) :
    Prop := v.datetime? = none ∧ ∃ part : Value, part.IsPart v ∧ part.datetime? ≠ none

theorem Discreet.part {part v : Value} (h : v.Discreet) (hp : part.IsPart v) : part.Discreet where
  texts s hs := h.texts s (hs.trans hp)
  names entries hs := h.names entries (hs.trans hp)

theorem Quiet.part {part v : Value} (h : v.Quiet) (hp : part.IsPart v) : part.Quiet where
  texts s hs := h.texts s (hs.trans hp)
  names entries hs := h.names entries (hs.trans hp)

/-- The text of a discreet date is a text like any other. -/
theorem Discreet.stamp {v : Value} (h : v.Discreet) {stamp : String}
    (hd : v.datetime? = some stamp) :
    ¬ Leaks stamp.toList := by
  rw [datetime?_eq_some_iff] at hd
  subst hd
  exact h.texts stamp (.entry List.mem_cons_self .self)

/-- A discreet value without dates is quiet. -/
theorem Discreet.quiet {v : Value} (h : v.Discreet)
    (hd : ∀ part : Value, part.IsPart v → part.datetime? = none) : v.Quiet where
  texts := h.texts
  names entries hp := h.names entries hp (hd _ hp)

/-- What is no date and hides none has no date in it. -/
theorem datetime?_of_not_hidesDate {v : Value} (hv : v.datetime? = none) (h : ¬ v.HidesDate)
    {part : Value} (hp : part.IsPart v) : part.datetime? = none :=
  Classical.byContradiction fun hd => h ⟨hv, part, hp, hd⟩

/-! ### What discreet values are made of -/

theorem discreet_scalar {v : Value} (hlist : ∀ items, v ≠ .list items)
    (htable : ∀ entries, v ≠ .table entries) (htext : ∀ s, v = .text s → ¬ Leaks s.toList) :
    v.Discreet where
  texts s hs := htext s ((isPart_scalar_iff hlist htable).1 hs).symm
  names entries hs := absurd ((isPart_scalar_iff hlist htable).1 hs).symm (htable entries)

theorem discreet_date {stamp : String} (h : ¬ Leaks stamp.toList) :
    (Value.ofDatetime stamp).Discreet where
  texts s hs := by
    obtain he | he := isPart_date_iff.1 hs
    · cases he
    · cases he
      exact h
  names entries hs hd := by
    obtain he | he := isPart_date_iff.1 hs
    · rw [he] at hd
      cases hd
    · cases he

theorem discreet_list {items : List Value} (h : ∀ item ∈ items, item.Discreet) :
    (Value.list items).Discreet where
  texts s hs := by
    obtain he | ⟨item, hm, hp⟩ := isPart_list_iff.1 hs
    · cases he
    · exact (h item hm).texts s hp
  names entries hs := by
    obtain he | ⟨item, hm, hp⟩ := isPart_list_iff.1 hs
    · cases he
    · exact (h item hm).names entries hp

theorem discreet_table {entries : List (String × Value)}
    (hn : ∀ entry ∈ entries, ¬ Leaks entry.1.toList) (h : ∀ entry ∈ entries, entry.2.Discreet) :
    (Value.table entries).Discreet where
  texts s hs := by
    obtain he | ⟨entry, hm, hp⟩ := isPart_table_iff.1 hs
    · cases he
    · exact (h entry hm).texts s hp
  names inner hs := by
    obtain he | ⟨entry, hm, hp⟩ := isPart_table_iff.1 hs
    · cases he
      exact fun _ => hn
    · exact (h entry hm).names inner hp

theorem quiet_table {entries : List (String × Value)}
    (h : ∀ entry ∈ entries, ¬ Leaks entry.1.toList ∧ entry.2.Quiet) :
    (Value.table entries).Quiet where
  texts s hs := by
    obtain he | ⟨entry, hm, hp⟩ := isPart_table_iff.1 hs
    · cases he
    · exact (h entry hm).2.texts s hp
  names inner hi := by
    obtain he | ⟨entry, hm, hp⟩ := isPart_table_iff.1 hi
    · cases he
      exact fun entry hm => (h entry hm).1
    · exact (h entry hm).2.names inner hp

end Value

/-- The private name occurs in no text of a document, and in no name but those of the dates in
it. -/
structure Document.Discreet (doc : Document) : Prop where
  names : ∀ entry ∈ doc.entries, ¬ Leaks entry.1.toList
  values : ∀ entry ∈ doc.entries, entry.2.Discreet

theorem Document.Discreet.part {doc : Document} (h : doc.Discreet) {part : Value}
    (hp : doc.HasPart part) :
    part.Discreet := by
  obtain ⟨entry, hm, hp⟩ := hp
  exact (h.values entry hm).part hp

end Sweep
