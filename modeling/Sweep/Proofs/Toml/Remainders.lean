import Sweep.Proofs.Toml.Scalars

/-!
# What readers leave

Every reader takes its construct from the front of a text, and the text that it leaves is an end of
the one that it was given (`TakesFront`). So whatever is read anywhere in a text is read at an end
of it, which is how a property of a whole text reaches the names and the strings in it.

A reader that chooses between others says once what it has chosen and where (`source_of_readString`,
`source_of_readName`, `cases_of_readNumber`, `cases_of_readScalar`). What it leaves comes of that,
and so does what it can give.
-/

set_option autoImplicit false

namespace Sweep

/-- A reader leaves an end of the text that it was given. -/
def TakesFront {α : Type} (read : List Char → Option (α × List Char)) : Prop :=
  ∀ {cs after : List Char} {a : α}, read cs = some (a, after) → after <:+ cs

/-- What is made of what a reader gives leaves what the reader leaves. -/
theorem exists_of_map_eq_some {α β : Type} {read : Option (α × List Char)} {f : α → β} {b : β}
    {after : List Char} (h : (read.map fun (a, rest) => (f a, rest)) = some (b, after)) :
    ∃ a, read = some (a, after) ∧ f a = b := by
  obtain ⟨⟨a, _⟩, hread, he⟩ := Option.map_eq_some_iff.1 h
  cases he
  exact ⟨a, hread, rfl⟩

namespace Text

theorem takesFront_readHex (count value : Nat) : TakesFront (readHex count value) := by
  intro cs after n h
  induction count generalizing value cs with
  | zero =>
    cases h
    exact List.suffix_refl _
  | succ count ih =>
    cases cs with
    | nil => cases h
    | cons c cs =>
      rw [readHex] at h
      split at h
      · exact (ih _ h).trans (List.suffix_cons c cs)
      · cases h

theorem takesFront_readHexChar (count : Nat) : TakesFront (readHexChar count) := by
  intro cs after c h
  rw [readHexChar] at h
  split at h
  · next n rest hread =>
    obtain ⟨_, -, he⟩ := Option.map_eq_some_iff.1 h
    cases he
    exact takesFront_readHex count 0 hread
  · cases h

end Text

namespace Toml

/-! ## White space and comments -/

theorem skipSpace_suffix (cs : List Char) : skipSpace cs <:+ cs := List.dropWhile_suffix _

theorem suffix_of_afterBreak? {cs after : List Char} (h : afterBreak? cs = some after) :
    after <:+ cs := by
  rw [afterBreak?.eq_def] at h
  split at h
  · cases h
    exact List.suffix_cons _ _
  · cases h
    exact (List.suffix_cons _ _).trans (List.suffix_cons _ _)
  · cases h

theorem suffix_of_afterLine? {cs after : List Char} (h : afterLine? cs = some after) :
    after <:+ cs := by
  have hend : ∀ {rest}, rest <:+ cs →
      (if rest.isEmpty then some [] else afterBreak? rest) = some after → after <:+ cs := by
    intro rest hs he
    split at he
    · cases he
      exact List.nil_suffix
    · exact (suffix_of_afterBreak? he).trans hs
  rw [afterLine?] at h
  split at h
  · next rest hc =>
    have hrest : rest <:+ cs := (List.suffix_cons '#' rest).trans (hc ▸ skipSpace_suffix cs)
    exact hend ((List.dropWhile_suffix _).trans hrest) h
  · exact hend (skipSpace_suffix cs) h

theorem suffix_of_skipFiller {inComment : Bool} {cs after : List Char}
    (h : skipFiller inComment cs = some after) :
    after <:+ cs := by
  fun_induction skipFiller inComment cs with
  | case1 =>
    cases h
    exact List.suffix_refl _
  | case2 _ _ ih => exact (ih h).trans (List.suffix_cons _ _)
  | case3 _ _ ih => exact (ih h).trans ((List.suffix_cons _ _).trans (List.suffix_cons _ _))
  | case4 _ _ _ _ _ ih => exact (ih h).trans (List.suffix_cons _ _)
  | case5 => cases h
  | case6 _ _ _ _ _ ih => exact (ih h).trans (List.suffix_cons _ _)
  | case7 _ _ _ _ ih => exact (ih h).trans (List.suffix_cons _ _)
  | case8 =>
    cases h
    exact List.suffix_refl _

theorem suffix_of_after? {c : Char} {cs after : List Char} (h : after? c cs = some after) :
    after <:+ cs := by
  cases cs with
  | nil => cases h
  | cons other rest =>
    rw [after?] at h
    split at h
    · cases h
      exact List.suffix_cons _ _
    · cases h

/-! ## Strings -/

theorem takesFront_readEscape : TakesFront readEscape := by
  intro cs after c h
  cases cs with
  | nil => cases h
  | cons letter rest =>
    refine List.IsSuffix.trans ?_ (List.suffix_cons letter rest)
    rw [readEscape] at h
    split at h
    · exact Text.takesFront_readHexChar 4 h
    · split at h
      · exact Text.takesFront_readHexChar 8 h
      · obtain ⟨_, -, he⟩ := Option.map_eq_some_iff.1 h
        cases he
        exact List.suffix_refl _

theorem takesFront_readBasic : TakesFront readBasic := by
  intro cs after text h
  fun_induction readBasic cs generalizing text with
  | case1 => cases h
  | case2 =>
    cases h
    exact List.suffix_cons _ _
  | case3 => cases h
  | case4 rest c rest' hescape _ ih =>
    have hrest := (takesFront_readEscape hescape).trans (List.suffix_cons '\\' rest)
    obtain ⟨_, hread, -⟩ := exists_of_map_eq_some h
    exact (ih hread).trans hrest
  | case5 c rest _ _ _ ih =>
    obtain ⟨_, hread, -⟩ := exists_of_map_eq_some h
    exact (ih hread).trans (List.suffix_cons c rest)
  | case6 => cases h

theorem takesFront_readLiteral : TakesFront readLiteral := by
  intro cs after text h
  fun_induction readLiteral cs generalizing text with
  | case1 => cases h
  | case2 =>
    cases h
    exact List.suffix_cons _ _
  | case3 c rest _ _ ih =>
    obtain ⟨_, hread, -⟩ := exists_of_map_eq_some h
    exact (ih hread).trans (List.suffix_cons c rest)
  | case4 => cases h

theorem skipBlankLines_suffix (cs : List Char) : skipBlankLines cs <:+ cs := by
  fun_induction skipBlankLines cs with
  | case1 _ ih => exact ih.trans (List.suffix_cons _ _)
  | case2 _ ih => exact ih.trans ((List.suffix_cons _ _).trans (List.suffix_cons _ _))
  | case3 _ _ _ _ _ ih => exact ih.trans (List.suffix_cons _ _)
  | case4 => exact List.suffix_refl _
  | case5 => exact List.suffix_refl _

theorem suffix_of_afterHiddenBreak? {cs after : List Char} (h : afterHiddenBreak? cs = some after) :
    after <:+ cs := by
  obtain ⟨rest, hr, rfl⟩ := Option.map_eq_some_iff.1 h
  exact (skipBlankLines_suffix rest).trans ((suffix_of_afterBreak? hr).trans (skipSpace_suffix cs))

theorem afterFirstBreak_suffix (cs : List Char) : afterFirstBreak cs <:+ cs := by
  rw [afterFirstBreak]
  cases hb : afterBreak? cs with
  | none => exact List.suffix_refl _
  | some after => exact suffix_of_afterBreak? hb

/-- The quotes that belong to the text stand in front of what is left. -/
theorem closingQuotes_append (q : Char) (cs : List Char) :
    (closingQuotes q cs).1 ++ (closingQuotes q cs).2 = cs := by
  rw [closingQuotes.eq_def]
  split
  · next a b rest =>
    split
    · next hab => rw [hab.1, hab.2]; rfl
    · split
      · next ha => rw [ha]; rfl
      · rfl
  · split
    · next ha => rw [ha]; rfl
    · rfl
  · rfl

theorem suffix_of_closingQuotes {q : Char} {cs text after : List Char}
    (h : closingQuotes q cs = (text, after)) :
    after <:+ cs := by
  have happend := closingQuotes_append q cs
  rw [h] at happend
  exact ⟨text, happend⟩

theorem takesFront_readBasicLines : TakesFront readBasicLines := by
  intro cs after text h
  fun_induction readBasicLines cs generalizing text with
  | case1 => cases h
  | case2 rest =>
    exact (suffix_of_closingQuotes (Option.some.inj h)).trans ⟨['"', '"', '"'], rfl⟩
  | case3 rest rest' hbreak _ ih =>
    exact (ih h).trans ((suffix_of_afterHiddenBreak? hbreak).trans (List.suffix_cons '\\' rest))
  | case4 => cases h
  | case5 rest _ c rest' hescape _ ih =>
    have hrest := (takesFront_readEscape hescape).trans (List.suffix_cons '\\' rest)
    obtain ⟨_, hread, -⟩ := exists_of_map_eq_some h
    exact (ih hread).trans hrest
  | case6 rest ih =>
    obtain ⟨_, hread, -⟩ := exists_of_map_eq_some h
    exact (ih hread).trans ⟨['\r', '\n'], rfl⟩
  | case7 c rest _ _ _ _ ih =>
    obtain ⟨_, hread, -⟩ := exists_of_map_eq_some h
    exact (ih hread).trans (List.suffix_cons c rest)
  | case8 => cases h

theorem takesFront_readLiteralLines : TakesFront readLiteralLines := by
  intro cs after text h
  fun_induction readLiteralLines cs generalizing text with
  | case1 => cases h
  | case2 rest =>
    exact (suffix_of_closingQuotes (Option.some.inj h)).trans ⟨['\'', '\'', '\''], rfl⟩
  | case3 rest ih =>
    obtain ⟨_, hread, -⟩ := exists_of_map_eq_some h
    exact (ih hread).trans ⟨['\r', '\n'], rfl⟩
  | case4 c rest _ _ _ ih =>
    obtain ⟨_, hread, -⟩ := exists_of_map_eq_some h
    exact (ih hread).trans (List.suffix_cons c rest)
  | case5 => cases h

/-- A string that is read is the text that one of the four readers takes at an end of the text. -/
theorem source_of_readString {cs after : List Char} {s : String}
    (h : readString cs = some (s, after)) :
    ∃ source text, source <:+ cs ∧ String.ofList text = s ∧
      (readBasicLines source = some (text, after) ∨ readBasic source = some (text, after) ∨
        readLiteralLines source = some (text, after) ∨
        readLiteral source = some (text, after)) := by
  rw [readString.eq_def] at h
  split at h
  · next rest =>
    obtain ⟨text, hread, he⟩ := exists_of_map_eq_some h
    exact ⟨_, text, (afterFirstBreak_suffix rest).trans ⟨['"', '"', '"'], rfl⟩, he, .inl hread⟩
  · next rest _ =>
    obtain ⟨text, hread, he⟩ := exists_of_map_eq_some h
    exact ⟨_, text, List.suffix_cons '"' rest, he, .inr (.inl hread)⟩
  · next rest =>
    obtain ⟨text, hread, he⟩ := exists_of_map_eq_some h
    exact ⟨_, text, (afterFirstBreak_suffix rest).trans ⟨['\'', '\'', '\''], rfl⟩, he,
      .inr (.inr (.inl hread))⟩
  · next rest _ =>
    obtain ⟨text, hread, he⟩ := exists_of_map_eq_some h
    exact ⟨_, text, List.suffix_cons '\'' rest, he, .inr (.inr (.inr hread))⟩
  · cases h

theorem takesFront_readString : TakesFront readString := by
  intro cs after s h
  obtain ⟨source, _, hsource, -, hread | hread | hread | hread⟩ := source_of_readString h
  · exact (takesFront_readBasicLines hread).trans hsource
  · exact (takesFront_readBasic hread).trans hsource
  · exact (takesFront_readLiteralLines hread).trans hsource
  · exact (takesFront_readLiteral hread).trans hsource

/-! ## Numbers -/

section Digits

variable {isDigit : Char → Bool}

theorem takesFront_readMoreDigits : TakesFront (readMoreDigits isDigit) := by
  intro cs after digits h
  fun_induction readMoreDigits isDigit cs generalizing digits with
  | case1 =>
    cases h
    exact List.suffix_refl _
  | case2 d rest _ ih =>
    obtain ⟨_, hread, -⟩ := exists_of_map_eq_some h
    exact (ih hread).trans ⟨['_', d], rfl⟩
  | case3 => cases h
  | case4 c rest _ _ ih =>
    obtain ⟨_, hread, -⟩ := exists_of_map_eq_some h
    exact (ih hread).trans (List.suffix_cons c rest)
  | case5 => cases h
  | case6 =>
    cases h
    exact List.suffix_refl _

theorem takesFront_readDigits : TakesFront (readDigits isDigit) := by
  intro cs after digits h
  cases cs with
  | nil => cases h
  | cons c rest =>
    rw [readDigits] at h
    split at h
    · obtain ⟨_, hread, -⟩ := exists_of_map_eq_some h
      exact (takesFront_readMoreDigits hread).trans (List.suffix_cons c rest)
    · cases h

end Digits

theorem takesFront_readFront : TakesFront readFront := by
  intro cs after front h
  rw [readFront.eq_def] at h
  split at h
  · cases h
    exact List.suffix_cons _ _
  · exact takesFront_readDigits h

theorem takesFront_readPoint : TakesFront readPoint := by
  intro cs after point h
  rw [readPoint.eq_def] at h
  split at h
  · next rest =>
    obtain ⟨_, hread, -⟩ := exists_of_map_eq_some h
    exact (takesFront_readDigits hread).trans (List.suffix_cons '.' rest)
  · cases h
    exact List.suffix_refl _

theorem readSign_suffix (cs : List Char) : (readSign cs).2 <:+ cs := by
  rw [readSign.eq_def]
  split
  · exact List.suffix_cons _ _
  · exact List.suffix_cons _ _
  · exact List.suffix_refl _

theorem takesFront_readExponent : TakesFront readExponent := by
  intro cs after exponent h
  cases cs with
  | nil =>
    cases h
    exact List.suffix_refl _
  | cons c rest =>
    rw [readExponent] at h
    split at h
    · obtain ⟨⟨_, _⟩, hread, he⟩ := Option.map_eq_some_iff.1 h
      cases he
      exact (takesFront_readDigits hread).trans
        ((readSign_suffix rest).trans (List.suffix_cons c rest))
    · cases h
      exact List.suffix_refl _

/-- The steps of reading a decimal number, and what it can be: a whole number, a double, or no
finite number. -/
theorem steps_of_readMagnitude {negative : Bool} {cs after : List Char} {item : Item}
    (h : readMagnitude negative cs = some (item, after)) :
    ∃ front cs₁ point cs₂ exponent, readFront cs = some (front, cs₁) ∧
      readPoint cs₁ = some (point, cs₂) ∧ readExponent cs₂ = some (exponent, after) ∧
      ((∃ n, signed? n = some item) ∨ (∃ x, item = .double x) ∨ item = .notFinite) := by
  rw [readMagnitude] at h
  simp only [Option.bind_eq_bind, Option.bind_eq_some_iff, Prod.exists] at h
  obtain ⟨front, cs₁, hfront, point, cs₂, hpoint, exponent, cs₃, hexponent, h⟩ := h
  have hsplit : after = cs₃ ∧
      ((∃ n, signed? n = some item) ∨ (∃ x, item = .double x) ∨ item = .notFinite) := by
    split at h
    · obtain ⟨whole, hw, he⟩ := Option.bind_eq_some_iff.1 h
      cases he
      exact ⟨rfl, .inl ⟨_, hw⟩⟩
    · split at h
      · cases h
        exact ⟨rfl, .inr (.inl ⟨_, rfl⟩)⟩
      · split at h
        · cases h
          exact ⟨rfl, .inr (.inr rfl)⟩
        · cases h
  exact ⟨front, cs₁, point, cs₂, exponent, hfront, hpoint, hsplit.1 ▸ hexponent, hsplit.2⟩

theorem takesFront_readMagnitude (negative : Bool) : TakesFront (readMagnitude negative) := by
  intro cs after item h
  obtain ⟨_, _, _, _, _, hfront, hpoint, hexponent, -⟩ := steps_of_readMagnitude h
  exact (takesFront_readExponent hexponent).trans
    ((takesFront_readPoint hpoint).trans (takesFront_readFront hfront))

theorem steps_of_readBased {base : Nat} {cs after : List Char} {item : Item}
    (h : readBased base cs = some (item, after)) :
    ∃ isDigit digits n, readDigits isDigit cs = some (digits, after) ∧ signed? n = some item := by
  rw [readBased] at h
  simp only [Option.bind_eq_bind, Option.bind_eq_some_iff, Prod.exists] at h
  obtain ⟨digits, _, hdigits, whole, hwhole, he⟩ := h
  cases he
  exact ⟨_, digits, _, hdigits, hwhole⟩

theorem suffix_of_afterWord? {word cs after : List Char} (h : afterWord? word cs = some after) :
    after <:+ cs := by
  rw [afterWord?] at h
  split at h
  · cases h
    exact List.drop_suffix _ _
  · cases h

theorem takesFront_readNotFinite : TakesFront readNotFinite := by
  intro cs after item h
  obtain ⟨rest, hr, he⟩ := Option.map_eq_some_iff.1 h
  cases he
  rcases Option.or_eq_some_iff.1 hr with hr | ⟨-, hr⟩
  · exact suffix_of_afterWord? hr
  · exact suffix_of_afterWord? hr

/-- A number that is read has a base, or is no finite number or a decimal one after its sign. -/
theorem cases_of_readNumber {cs after : List Char} {item : Item}
    (h : readNumber cs = some (item, after)) :
    (∃ base rest, rest <:+ cs ∧ readBased base rest = some (item, after)) ∨
      readNotFinite (readSign cs).2 = some (item, after) ∨
      readMagnitude (readSign cs).1 (readSign cs).2 = some (item, after) := by
  rw [readNumber.eq_def] at h
  split at h
  · exact .inl ⟨16, _, ⟨['0', 'x'], rfl⟩, h⟩
  · exact .inl ⟨8, _, ⟨['0', 'o'], rfl⟩, h⟩
  · exact .inl ⟨2, _, ⟨['0', 'b'], rfl⟩, h⟩
  · exact .inr ((Option.or_eq_some_iff.1 h).imp id And.right)

theorem takesFront_readNumber : TakesFront readNumber := by
  intro cs after item h
  obtain ⟨_, _, hrest, hbased⟩ | hnotFinite | hmagnitude := cases_of_readNumber h
  · obtain ⟨_, _, _, hdigits, -⟩ := steps_of_readBased hbased
    exact (takesFront_readDigits hdigits).trans hrest
  · exact (takesFront_readNotFinite hnotFinite).trans (readSign_suffix cs)
  · exact (takesFront_readMagnitude _ hmagnitude).trans (readSign_suffix cs)

/-! ## Dates and times -/

section Dates

open Datetime (Part Expectation)

theorem suffix_of_readRun {part : Part} {expected : Expectation} {cs run after : List Char}
    (h : readRun part expected cs = .ok (run, after)) : after <:+ cs :=
  ⟨run, (split_of_readRun h).1.symm⟩

theorem suffix_of_readMark {part : Part} {expected : Expectation} {mark : Char}
    {cs after : List Char} (h : readMark part expected mark cs = .ok after) : after <:+ cs := by
  rw [(readMark_eq_ok_iff _ _ _ _ _).1 h]
  exact List.suffix_cons _ _

theorem suffix_of_readDate {cs after : List Char} {d : Date} (h : readDate cs = .ok (d, after)) :
    after <:+ cs := by
  obtain ⟨_, _, _, _, _, _, _, hyear, hmark, hmonth, hmark', hday, -⟩ :=
    (readDate_eq_ok_iff _ _ _).1 h
  exact (suffix_of_readRun hday).trans
    ((suffix_of_readMark hmark').trans ((suffix_of_readRun hmonth).trans
    ((suffix_of_readMark hmark).trans (suffix_of_readRun hyear))))

theorem suffix_of_readFraction {cs digits after : List Char}
    (h : readFraction cs = .ok (digits, after)) :
    after <:+ cs := by
  rw [readFraction.eq_def] at h
  split at h
  · exact (suffix_of_readRun h).trans (List.suffix_cons _ _)
  · cases h
    exact List.suffix_refl _

theorem suffix_of_readTime {cs after : List Char} {t : Time} (h : readTime cs = .ok (t, after)) :
    after <:+ cs := by
  obtain ⟨_, _, _, _, _, _, _, _, _, hhour, hmark, hminute, hmark', hsecond, hfraction, -⟩ :=
    (readTime_eq_ok_iff _ _ _).1 h
  exact (suffix_of_readFraction hfraction).trans
    ((suffix_of_readRun hsecond).trans ((suffix_of_readMark hmark').trans
    ((suffix_of_readRun hminute).trans
      ((suffix_of_readMark hmark).trans (suffix_of_readRun hhour)))))

theorem suffix_of_readOffset {cs after : List Char} {offset : Option Offset}
    (h : readOffset cs = .ok (offset, after)) :
    after <:+ cs := by
  obtain ⟨-, rfl, -⟩ | ⟨letter, -, rfl, -⟩ | ⟨sign, _, rest, -, rfl, hdistance⟩ :=
    (readOffset_eq_ok_iff _ _ _).1 h
  · exact List.suffix_refl _
  · exact List.suffix_cons letter after
  · obtain ⟨_, _, _, _, _, hhours, hmark, hminutes, -, -⟩ :=
      (readDistance_eq_ok_iff _ _ _ _).1 hdistance
    exact (suffix_of_readRun hminutes).trans
      ((suffix_of_readMark hmark).trans ((suffix_of_readRun hhours).trans
      (List.suffix_cons sign rest)))

theorem suffix_of_readDatetime {cs after : List Char} {d : Datetime}
    (h : readDatetime cs = .ok (d, after)) :
    after <:+ cs := by
  obtain ⟨_, -, htime⟩ | ⟨_, -, hdate⟩ | ⟨_, mark, rest, _, _, _, -, hdate, htime, hoffset⟩ :=
    cases_of_readDatetime h
  · exact suffix_of_readTime htime
  · exact suffix_of_readDate hdate
  · exact (suffix_of_readOffset hoffset).trans ((suffix_of_readTime htime).trans
      ((List.suffix_cons mark rest).trans (suffix_of_readDate hdate)))

end Dates

/-! ## Keys and values -/

/-- A name that is read is a quoted text at an end of the text, or the characters of a bare one. -/
theorem source_of_readName {cs after : List Char} {name : String}
    (h : readName cs = some (name, after)) :
    (∃ source text, source <:+ cs ∧ String.ofList text = name ∧
      (readBasic source = some (text, after) ∨ readLiteral source = some (text, after))) ∨
      (String.ofList (cs.takeWhile isBareChar) = name ∧ cs.dropWhile isBareChar = after) := by
  rw [readName.eq_def] at h
  split at h
  · next rest =>
    obtain ⟨text, hread, he⟩ := exists_of_map_eq_some h
    exact .inl ⟨rest, text, List.suffix_cons '"' rest, he, .inl hread⟩
  · next rest =>
    obtain ⟨text, hread, he⟩ := exists_of_map_eq_some h
    exact .inl ⟨rest, text, List.suffix_cons '\'' rest, he, .inr hread⟩
  · split at h
    · cases h
    · cases h
      exact .inr ⟨rfl, rfl⟩

theorem takesFront_readName : TakesFront readName := by
  intro cs after name h
  obtain ⟨_, _, hsource, -, hread | hread⟩ | ⟨-, rfl⟩ := source_of_readName h
  · exact (takesFront_readBasic hread).trans hsource
  · exact (takesFront_readLiteral hread).trans hsource
  · exact List.dropWhile_suffix _

/-- The first character decides what a scalar is read as. -/
theorem cases_of_readScalar {cs after : List Char} {item : Item}
    (h : readScalar cs = some (item, after)) :
    (∃ s, item = .text s ∧ readString cs = some (s, after)) ∨
      (∃ b word, item = .bool b ∧ afterWord? word cs = some after) ∨
      (∃ d, item = .datetime d ∧ readDatetime cs = .ok (d, after)) ∨
      readNumber cs = some (item, after) := by
  have hword : ∀ {b word}, (afterWord? word cs).map (Item.bool b, ·) = some (item, after) →
      ∃ b word, item = .bool b ∧ afterWord? word cs = some after := by
    intro b word h
    obtain ⟨_, hread, he⟩ := Option.map_eq_some_iff.1 h
    cases he
    exact ⟨b, word, rfl, hread⟩
  rw [readScalar.eq_def] at h
  split at h
  · cases h
  · split at h
    · obtain ⟨s, hread, he⟩ := exists_of_map_eq_some h
      exact .inl ⟨s, he.symm, hread⟩
    · split at h
      · exact .inr (.inl (hword h))
      · split at h
        · exact .inr (.inl (hword h))
        · split at h
          · obtain ⟨d, hread, he⟩ := exists_of_map_eq_some h
            exact .inr (.inr (.inl ⟨d, he.symm, Except.toOption_eq_some_iff.1 hread⟩))
          · exact .inr (.inr (.inr h))

theorem takesFront_readScalar : TakesFront readScalar := by
  intro cs after item h
  obtain ⟨_, -, hstring⟩ | ⟨_, _, -, hword⟩ | ⟨_, -, hdatetime⟩ | hnumber := cases_of_readScalar h
  · exact takesFront_readString hstring
  · exact suffix_of_afterWord? hword
  · exact suffix_of_readDatetime hdatetime
  · exact takesFront_readNumber hnumber

end Toml

end Sweep
