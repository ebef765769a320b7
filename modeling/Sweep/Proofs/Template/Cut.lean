import Sweep.Proofs.Key.Scanning
import Sweep.Template

/-!
# Cutting a text at its placeholders

What a placeholder looks like is told here without the scanner (`Placeholder.text`,
`Placeholder.WellFormed`), and so is what it means to cut a text at its placeholders: going from
left to right, take a placeholder wherever one stands, and a literal character only where none does
(`Cuts`). A text can be cut in one way, and that is the way of `scan`.

A text that is cut into placeholders and literal text **free of braces** was cut that way: a
placeholder holds no brace inside, so it cannot reach over the end of another one, and none begins
in a text without braces. Hence whoever writes literals and placeholders after each other gets them
back (`scan_text`).
-/

set_option autoImplicit false

namespace Sweep.Template

/-- Text without a brace. -/
def BraceFree (cs : List Char) : Prop := ∀ c ∈ cs, c ≠ '\x7b' ∧ c ≠ '\x7d'

theorem all_isFormatChar_iff (cs : List Char) : cs.all isFormatChar = true ↔ BraceFree cs := by
  simp [BraceFree, isFormatChar]

/-! ## Placeholders -/

namespace Placeholder

/-- The part of a placeholder between its key text and the closing brace. -/
def formatText (p : Placeholder) : List Char :=
  match p.format with
  | none => []
  | some format => '|' :: format.toList

def text (p : Placeholder) : List Char := '\x7b' :: p.key.toList ++ p.formatText ++ ['\x7d']

/-- What a key text and a format text may be made of. -/
structure WellFormed (p : Placeholder) : Prop where
  key_ne : p.key ≠ ""
  key_free : BraceFree p.key.toList
  key_bar : '|' ∉ p.key.toList
  format_ne : ∀ format ∈ p.format, format ≠ ""
  format_free : ∀ format ∈ p.format, BraceFree format.toList

end Placeholder

theorem isKeyChar_iff (c : Char) : isKeyChar c = true ↔ (c ≠ '\x7b' ∧ c ≠ '\x7d') ∧ c ≠ '|' := by
  simp [isKeyChar, isFormatChar]

/-- What a key text stops at. -/
theorem isKeyChar_eq_false_iff (c : Char) :
    isKeyChar c = false ↔ c = '\x7b' ∨ c = '\x7d' ∨ c = '|' := by
  rw [← Bool.not_eq_true, isKeyChar_iff, not_and_or, not_and_or, not_not, not_not,
    not_not, or_assoc]

theorem isFormatChar_iff (c : Char) : isFormatChar c = true ↔ c ≠ '\x7b' ∧ c ≠ '\x7d' := by
  simp [isFormatChar]

/-- The text of a format is read up to the brace that closes the placeholder. -/
theorem readFormat_formatText {p : Placeholder}
    (h : ∀ format ∈ p.format, format ≠ "" ∧ BraceFree format.toList) (rest : List Char) :
    readFormat p.key (p.formatText ++ '\x7d' :: rest) = some (p, rest) := by
  obtain ⟨key, format⟩ := p
  cases format with
  | none => rfl
  | some format =>
    obtain ⟨hne, hfree⟩ := h format rfl
    have hrun : ∀ c ∈ format.toList, isFormatChar c = true :=
      fun c hc => (isFormatChar_iff c).2 (hfree c hc)
    have hstop : ∀ c ∈ ('\x7d' :: rest).head?, isFormatChar c = false := by
      intro c hc
      cases hc
      decide
    obtain ⟨htake, hdrop⟩ := Key.span_run hrun hstop
    have hnil : format.toList.isEmpty = false := by
      rw [List.isEmpty_eq_false_iff]
      exact fun he => hne (String.toList_eq_nil_iff.1 he)
    show readFormat key ('|' :: (format.toList ++ '\x7d' :: rest)) = _
    simp only [readFormat, hdrop, htake, hnil, Bool.false_eq_true, if_false, String.ofList_toList]

theorem readFormat_eq_some_iff (key : String) (cs rest : List Char) (p : Placeholder) :
    readFormat key cs = some (p, rest) ↔
      p.key = key ∧ (∀ format ∈ p.format, format ≠ "" ∧ BraceFree format.toList) ∧
        cs = p.formatText ++ '\x7d' :: rest := by
  constructor
  · intro h
    unfold readFormat at h
    split at h
    · cases h
      exact ⟨rfl, by simp, rfl⟩
    · rename_i after
      split at h
      · rename_i tail hd
        dsimp only at h
        split at h
        · exact absurd h (by simp)
        · rename_i hne
          cases h
          refine ⟨rfl, ?_, ?_⟩
          · intro format hf
            cases hf
            rw [String.toList_ofList]
            refine ⟨?_, ?_⟩
            · intro he
              rw [String.ofList_eq_empty_iff.1 he] at hne
              exact hne rfl
            · intro c hc
              exact (isFormatChar_iff c).1 (List.mem_takeWhile_imp hc)
          · show '|' :: after = '|' :: (String.ofList _).toList ++ '\x7d' :: rest
            rw [String.toList_ofList, List.cons_append, ← hd, List.takeWhile_append_dropWhile]
      · exact absurd h (by simp)
    · exact absurd h (by simp)
  · rintro ⟨rfl, hall, rfl⟩
    exact readFormat_formatText hall rest

theorem readPlaceholder_of_ne_nil {cs : List Char} (h : cs.takeWhile isKeyChar ≠ []) :
    readPlaceholder cs = readFormat (String.ofList (cs.takeWhile isKeyChar))
      (cs.dropWhile isKeyChar) := by
  rw [readPlaceholder]
  split
  · rename_i hn
    exact absurd hn h
  · rfl

theorem Placeholder.text_append (p : Placeholder) (rest : List Char) :
    p.text ++ rest = '\x7b' :: (p.key.toList ++ (p.formatText ++ '\x7d' :: rest)) := by
  rw [text, List.append_assoc, List.append_assoc, List.singleton_append]
  rfl

/-- The key text of a placeholder is all that a key text can be. -/
theorem Placeholder.WellFormed.span_key {p : Placeholder} (hp : p.WellFormed) (rest : List Char) :
    (p.key.toList ++ (p.formatText ++ '\x7d' :: rest)).takeWhile isKeyChar = p.key.toList ∧
      (p.key.toList ++ (p.formatText ++ '\x7d' :: rest)).dropWhile isKeyChar =
        p.formatText ++ '\x7d' :: rest := by
  have hrun : ∀ c ∈ p.key.toList, isKeyChar c = true := fun c hc =>
    (isKeyChar_iff c).2 ⟨hp.key_free c hc, fun hb => hp.key_bar (hb ▸ hc)⟩
  -- behind the key text stands the bar or the closing brace
  have hstop : ∀ c ∈ (p.formatText ++ '\x7d' :: rest).head?, isKeyChar c = false := by
    intro c hc
    rw [Placeholder.formatText] at hc
    split at hc
    all_goals
      cases hc
      decide
  exact Key.span_run hrun hstop

/-- **The scanner takes a placeholder exactly where one stands**, and the same one whatever comes
after. -/
theorem readPlaceholder_eq_some_iff (cs rest : List Char) (p : Placeholder) :
    readPlaceholder cs = some (p, rest) ↔ p.WellFormed ∧ '\x7b' :: cs = p.text ++ rest := by
  rw [p.text_append, List.cons.injEq, eq_self, true_and]
  constructor
  · intro h
    by_cases hne : cs.takeWhile isKeyChar = []
    · rw [readPlaceholder, hne] at h
      exact absurd h (by simp)
    rw [readPlaceholder_of_ne_nil hne, readFormat_eq_some_iff] at h
    obtain ⟨hk, hall, hd⟩ := h
    have hkey : p.key.toList = cs.takeWhile isKeyChar := by rw [hk, String.toList_ofList]
    have hchar : ∀ c ∈ p.key.toList, (c ≠ '\x7b' ∧ c ≠ '\x7d') ∧ c ≠ '|' := by
      intro c hc
      rw [hkey] at hc
      exact (isKeyChar_iff c).1 (List.mem_takeWhile_imp hc)
    refine ⟨⟨?_, fun c hc => (hchar c hc).1, fun hb => (hchar '|' hb).2 rfl,
      fun format hf => (hall format hf).1, fun format hf => (hall format hf).2⟩, ?_⟩
    · intro he
      rw [he] at hkey
      exact hne hkey.symm
    · rw [hkey, ← hd, List.takeWhile_append_dropWhile]
  · rintro ⟨hp, rfl⟩
    obtain ⟨htake, hdrop⟩ := hp.span_key rest
    have hne : p.key.toList ≠ [] := fun he => hp.key_ne (String.toList_eq_nil_iff.1 he)
    rw [readPlaceholder_of_ne_nil (by rw [htake]; exact hne), htake, hdrop, String.ofList_toList,
      readFormat_eq_some_iff]
    exact ⟨rfl, fun format hf => ⟨hp.format_ne format hf, hp.format_free format hf⟩, rfl⟩

/-! ## Cuts -/

namespace Scan

/-- The text that was cut. -/
def text (cut : Scan) :
    List Char := cut.marked.flatMap (fun mark => mark.1 ++ mark.2.text) ++ cut.tail

theorem text_addLiteral (c : Char) (cut : Scan) : (cut.addLiteral c).text = c :: cut.text := by
  obtain ⟨marked, tail⟩ := cut
  cases marked with
  | nil => rfl
  | cons mark more =>
    rw [addLiteral, text, text, List.flatMap_cons, List.flatMap_cons]
    rfl

theorem text_addPlaceholder (p : Placeholder) (cut : Scan) :
    (cut.addPlaceholder p).text = p.text ++ cut.text := by
  rw [addPlaceholder, text, text, List.flatMap_cons, List.nil_append, List.append_assoc]

theorem foldr_addLiteral_cons (literal front : List Char) (p : Placeholder)
    (more : List (List Char × Placeholder)) (tail : List Char) :
    literal.foldr addLiteral ⟨(front, p) :: more, tail⟩ =
      ⟨(literal ++ front, p) :: more, tail⟩ := by
  induction literal with
  | nil => rfl
  | cons c rest ih =>
    rw [List.foldr_cons, ih]
    rfl

theorem foldr_addLiteral_nil (literal tail : List Char) :
    literal.foldr addLiteral ⟨[], tail⟩ = ⟨[], literal ++ tail⟩ := by
  induction literal with
  | nil => rfl
  | cons c rest ih =>
    rw [List.foldr_cons, ih]
    rfl

end Scan

/-- No placeholder stands at the front of a text. -/
def NoneInFront (cs : List Char) :
    Prop := ∀ (p : Placeholder) (rest : List Char), p.WellFormed → cs ≠ p.text ++ rest

theorem noneInFront_of_ne {c : Char} (h : c ≠ '\x7b') (rest : List Char) :
    NoneInFront (c :: rest) := by
  intro p after _ he
  rw [p.text_append] at he
  exact h (List.cons.inj he).1

/-- A text cut at its placeholders: the leftmost one first, and the next one behind its end. -/
inductive Cuts : List Char → Scan → Prop where
  | nil : Cuts [] ⟨[], []⟩
  | placeholder {p : Placeholder} {rest : List Char} {cut : Scan} : p.WellFormed → Cuts rest cut →
      Cuts (p.text ++ rest) (cut.addPlaceholder p)
  | literal {c : Char} {rest : List Char} {cut : Scan} : NoneInFront (c :: rest) → Cuts rest cut →
      Cuts (c :: rest) (cut.addLiteral c)

theorem Cuts.text_eq {cs : List Char} {cut : Scan} (h : Cuts cs cut) : cut.text = cs := by
  induction h with
  | nil => rfl
  | placeholder _ _ ih => rw [Scan.text_addPlaceholder, ih]
  | literal _ _ ih => rw [Scan.text_addLiteral, ih]

theorem Cuts.wellFormed {cs : List Char} {cut : Scan} (h : Cuts cs cut) :
    ∀ mark ∈ cut.marked, mark.2.WellFormed := by
  induction h with
  | nil => simp
  | placeholder hp _ ih => exact List.forall_mem_cons.2 ⟨hp, ih⟩
  | @literal c rest cut _ _ ih =>
    obtain ⟨marked, tail⟩ := cut
    cases marked with
    | nil => exact ih
    | cons mark more => exact List.forall_mem_cons.2 (List.forall_mem_cons.1 ih)

theorem scan_placeholder {p : Placeholder} (h : p.WellFormed) (rest : List Char) :
    scan (p.text ++ rest) = (scan rest).addPlaceholder p := by
  have hr := (readPlaceholder_eq_some_iff _ rest p).2 ⟨h, (p.text_append rest).symm⟩
  rw [p.text_append, scan, if_pos rfl]
  split
  · rename_i hs
    rw [hr] at hs
    cases hs
    rfl
  · rename_i hn
    rw [hr] at hn
    exact absurd hn (by simp)

theorem scan_literal {c : Char} {rest : List Char} (h : NoneInFront (c :: rest)) :
    scan (c :: rest) = (scan rest).addLiteral c := by
  rw [scan]
  by_cases hc : c = '\x7b'
  · rw [if_pos hc]
    split
    · rename_i p after hs
      obtain ⟨hp, ht⟩ := (readPlaceholder_eq_some_iff rest after p).1 hs
      rw [← hc] at ht
      exact absurd ht (h p after hp)
    · rfl
  · rw [if_neg hc]

theorem Cuts.scan_eq {cs : List Char} {cut : Scan} (h : Cuts cs cut) : scan cs = cut := by
  induction h with
  | nil => rw [scan]
  | placeholder hp _ ih => rw [scan_placeholder hp, ih]
  | literal hn _ ih => rw [scan_literal hn, ih]

/-- **The scanner cuts every text at its placeholders**; there is no other way to cut it
(`Cuts.scan_eq`). -/
theorem cuts_scan (cs : List Char) : Cuts cs (scan cs) := by
  fun_induction scan cs with
  | case1 => exact .nil
  | case2 rest p after hr _ ih =>
    obtain ⟨hp, ht⟩ := (readPlaceholder_eq_some_iff rest after p).1 hr
    rw [ht]
    exact .placeholder hp ih
  | case3 rest hn ih =>
    refine .literal ?_ ih
    intro p after hp ht
    rw [(readPlaceholder_eq_some_iff rest after p).2 ⟨hp, ht⟩] at hn
    exact absurd hn (by simp)
  | case4 c rest hc ih => exact .literal (noneInFront_of_ne hc rest) ih

theorem text_scan (cs : List Char) : (scan cs).text = cs := (cuts_scan cs).text_eq

/-! ## Literals without braces -/

theorem Cuts.braceFree_append {literal rest : List Char} {cut : Scan} (hl : BraceFree literal)
    (h : Cuts rest cut) :
    Cuts (literal ++ rest) (literal.foldr Scan.addLiteral cut) := by
  induction literal with
  | nil => exact h
  | cons c more ih =>
    obtain ⟨hc, hm⟩ := List.forall_mem_cons.1 hl
    exact .literal (noneInFront_of_ne hc.1 _) (ih hm)

theorem cuts_text {cut : Scan} (hm : ∀ mark ∈ cut.marked, BraceFree mark.1 ∧ mark.2.WellFormed)
    (ht : BraceFree cut.tail) : Cuts cut.text cut := by
  obtain ⟨marked, tail⟩ := cut
  induction marked with
  | nil =>
    have hc := Cuts.nil.braceFree_append ht
    rwa [Scan.foldr_addLiteral_nil, List.append_nil] at hc
  | cons mark more ih =>
    obtain ⟨literal, p⟩ := mark
    obtain ⟨⟨hl, hp⟩, hm⟩ := List.forall_mem_cons.1 hm
    have hc := (Cuts.placeholder hp (ih hm ht)).braceFree_append hl
    rw [Scan.addPlaceholder, Scan.foldr_addLiteral_cons, List.append_nil] at hc
    rw [Scan.text, List.flatMap_cons, List.append_assoc, List.append_assoc]
    exact hc

/-- **Literals and placeholders that were written after each other are found again.** -/
theorem scan_text {cut : Scan} (hm : ∀ mark ∈ cut.marked, BraceFree mark.1 ∧ mark.2.WellFormed)
    (ht : BraceFree cut.tail) : scan cut.text = cut :=
  (cuts_text hm ht).scan_eq

end Sweep.Template
