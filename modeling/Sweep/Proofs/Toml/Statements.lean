import Sweep.Proofs.Toml.Inline

/-!
# Lines, read and carried out

A text is cut into statements, and the statements are carried out on a draft. Both go by lines, so
the two are told together: `Runs cs p q` says that the lines `cs` take the draft from `p` to `q`,
whatever lines come after them. Runs are put one after the other (`Runs.append`), and there is one
lemma for each kind of line that is written.
-/

set_option autoImplicit false

namespace Sweep.Toml

/-- The statements that a text is cut into, with any bound that is large enough. -/
def Cuts (cs : List Char) (statements : List Statement) : Prop :=
  ∀ bound, cs.length ≤ bound → readStatements bound cs = some statements

theorem cuts_nil : Cuts [] [] := by
  intro bound _
  cases bound <;> rfl

/-- The lines take a draft from one state to another, whatever lines come after them. -/
def Runs (cs : List Char) (p q : Progress) : Prop :=
  ∃ statements, (∀ rest more, Cuts rest more → Cuts (cs ++ rest) (statements ++ more)) ∧
    statements.foldlM Progress.step p = some q

theorem Runs.nil (p : Progress) : Runs [] p p := ⟨[], fun _ _ h => h, rfl⟩

theorem Runs.append {cs cs' : List Char} {p q r : Progress} (h : Runs cs p q) (h' : Runs cs' q r) :
    Runs (cs ++ cs') p r := by
  obtain ⟨statements, hcut, hfold⟩ := h
  obtain ⟨statements', hcut', hfold'⟩ := h'
  refine ⟨statements ++ statements', fun rest more hr => ?_, ?_⟩
  · rw [List.append_assoc, List.append_assoc]
    exact hcut _ _ (hcut' rest more hr)
  · rw [List.foldlM_append, hfold]
    exact hfold'

/-- A whole text is carried out on an empty draft. -/
theorem Runs.readStatements {cs : List Char} {p q : Progress} (h : Runs cs p q) :
    ∃ statements, Toml.readStatements cs.length cs = some statements ∧
      statements.foldlM Progress.step p = some q := by
  obtain ⟨statements, hcut, hfold⟩ := h
  have hread := hcut [] [] cuts_nil cs.length
  rw [List.append_nil, List.append_nil] at hread
  exact ⟨statements, hread (Nat.le_refl _), hfold⟩

/-- One line that is read as one statement. -/
theorem Runs.line {line : List Char} (statement : Statement) {p q : Progress}
    (hread : ∀ rest bound, Toml.readStatements (bound + 1) (line ++ '\n' :: rest) =
      (Toml.readStatements bound rest).map (statement :: ·))
    (hstep : p.step statement = some q) : Runs (line ++ ['\n']) p q := by
  refine ⟨[statement], fun rest more hr bound hb => ?_, ?_⟩
  · rw [List.append_assoc, List.singleton_append] at hb ⊢
    rw [List.length_append, List.length_cons] at hb
    obtain ⟨bound, rfl⟩ : ∃ fewer, bound = fewer + 1 :=
      Nat.exists_eq_add_of_le'
        (Nat.le_trans (Nat.le_trans (Nat.le_add_left 1 _) (Nat.le_add_left _ line.length)) hb)
    rw [hread, hr bound (by omega)]
    rfl
  · rw [List.foldlM_cons, hstep]
    rfl

/-! ## The kinds of lines -/

theorem runs_blank (p : Progress) : Runs ['\n'] p p := by
  refine ⟨[], fun rest more hr bound hb => ?_, rfl⟩
  rw [List.singleton_append, List.length_cons] at hb
  obtain ⟨bound, rfl⟩ : ∃ fewer, bound = fewer + 1 :=
    Nat.exists_eq_add_of_le' (Nat.le_trans (Nat.le_add_left 1 _) hb)
  rw [List.singleton_append, List.nil_append]
  exact hr bound (Nat.le_of_succ_le_succ hb)

/-- A blank line at the top can be left out. -/
theorem Runs.dropBlank {cs : List Char} {p q : Progress} (h : Runs ('\n' :: cs) p q) :
    Runs cs p q := by
  obtain ⟨statements, hcut, hfold⟩ := h
  refine ⟨statements, fun rest more hr bound hb => ?_, hfold⟩
  exact hcut rest more hr (bound + 1) (Nat.succ_le_succ hb)

/-- A line that begins with no bracket, break or comment is read as an entry. -/
theorem readStatements_of_name {c : Char} {cs after : List Char} {statement : Statement}
    (hc : c = '"' ∨ c = '\'' ∨ isBareChar c = true)
    (h : readAssignment (c :: cs) = some (statement, after)) (bound : Nat) :
    readStatements (bound + 1) (c :: cs) = (readStatements bound after).map (statement :: ·) := by
  have hne : ∀ {other : Char}, (other ≠ '"' ∧ other ≠ '\'' ∧ isBareChar other = false) →
    c ≠ other := ne_of_head_nameText hc
  have hskip : skipSpace (c :: cs) = c :: cs := by
    refine skipSpace_of_head ?_
    rw [isSpace, Bool.or_eq_false_iff, beq_eq_false_iff_ne, beq_eq_false_iff_ne]
    exact ⟨hne (by decide), hne (by decide)⟩
  rw [readStatements, hskip]
  simp only
  rw [if_neg, if_neg (hne (by decide)), h]
  rintro (he | he | he)
  · exact hne (by decide) he
  · exact hne (by decide) he
  · exact hne (by decide) he

/-- **An entry on a line of its own** is given to the table whose section is open. -/
theorem runs_entry (name : String) {item : Item} (h : item.InLine nestingLimit) {p : Progress}
    {entries : DraftEntries}
    (hp : p.entries.editAt (DraftEntries.assignDotted name item []) p.path = some entries) :
    Runs (nameText name ++ ' ' :: '=' :: ' ' :: inline item ++ ['\n']) p ⟨entries, p.path⟩ := by
  refine Runs.line (.assign [] name item) (fun rest bound => ?_) ?_
  · have hends : ValueEnds ('\n' :: rest) := ⟨rest, .inr (.inr (.inl rfl))⟩
    have hpair := readPair_entry name (reads_inline h) hends
    have hassign :
        readAssignment (nameText name ++ ' ' :: '=' :: ' ' :: (inline item ++ '\n' :: rest)) =
        some (.assign [] name item, rest) := by
      rw [readAssignment, hpair]
      rfl
    obtain ⟨c, tail, hn, hc⟩ := head_nameText name
    simp only [List.append_assoc, List.cons_append]
    rw [hn, List.cons_append] at hassign ⊢
    exact readStatements_of_name hc hassign bound
  · rw [Progress.step, hp]
    rfl

theorem exists_pathText (path : List String) (name : String) :
    ∃ c tail, pathText (path ++ [name]) = c :: tail ∧
      (c = '"' ∨ c = '\'' ∨ isBareChar c = true) := by
  obtain ⟨first, rest, hp⟩ := List.exists_cons_of_ne_nil
    (List.append_ne_nil_of_right_ne_nil path (List.cons_ne_nil name []))
  obtain ⟨c, tail, hn, hc⟩ := head_nameText first
  rw [hp]
  cases rest with
  | nil => exact ⟨c, tail, hn, hc⟩
  | cons second more =>
    rw [pathText, hn]
    · exact ⟨c, _, rfl, hc⟩
    · exact List.cons_ne_nil _ _

theorem keyEnds_bracket (rest : List Char) : KeyEnds (']' :: rest) :=
  keyEnds_of_skipSpace rfl (show skipSpace (']' :: rest) = ']' :: rest from rfl) (by decide)

/-- A line that begins with a bracket is read as a header. -/
theorem readStatements_of_bracket {cs after : List Char} {statement : Statement}
    (h : readHeader cs = some (statement, after)) (bound : Nat) :
    readStatements (bound + 1) ('[' :: cs) = (readStatements bound after).map (statement :: ·) := by
  have hskip : skipSpace ('[' :: cs) = '[' :: cs := rfl
  rw [readStatements, hskip]
  simp only
  rw [if_neg (by decide)]
  simp only [if_true, h]

/-- **The header of a table** opens its section. -/
theorem runs_table {path : List String} {name : String} (hl : path.length < nestingLimit)
    {p : Progress} {entries : DraftEntries}
    (hp : p.entries.editAt (DraftEntries.openTable name) path = some entries) :
    Runs (tableHeader (path ++ [name])) p ⟨entries, path ++ [name]⟩ := by
  have hline :
      Runs ('[' :: (pathText (path ++ [name]) ++ [']']) ++ ['\n']) p ⟨entries, path ++ [name]⟩ := by
    refine Runs.line (.table path name) (fun rest bound => ?_) ?_
    · have hkey := readKey_pathText path name hl (keyEnds_bracket ('\n' :: rest))
      simp only [List.append_assoc, List.cons_append, List.nil_append]
      refine readStatements_of_bracket ?_ bound
      obtain ⟨c, tail, ht, hc⟩ := exists_pathText path name
      rw [ht, List.cons_append] at hkey ⊢
      rw [readHeader]
      · rw [hkey]
        rfl
      · intro more he
        exact ne_of_head_nameText hc (by decide) (List.cons.inj he).1
    · rw [Progress.step, hp]
      rfl
  have h := (runs_blank p).append hline
  simpa only [tableHeader, List.append_assoc, List.cons_append, List.nil_append] using h

/-- **The header of an element** opens the section of one more element. -/
theorem runs_element {path : List String} {name : String} (hl : path.length < nestingLimit)
    {p : Progress} {entries : DraftEntries}
    (hp : p.entries.editAt (DraftEntries.openElement name) path = some entries) :
    Runs (elementHeader (path ++ [name])) p ⟨entries, path ++ [name]⟩ := by
  have hline : Runs ('[' :: '[' :: (pathText (path ++ [name]) ++ [']', ']']) ++ ['\n'])
      p ⟨entries, path ++ [name]⟩ := by
    refine Runs.line (.element path name) (fun rest bound => ?_) ?_
    · have hkey := readKey_pathText path name hl (keyEnds_bracket (']' :: '\n' :: rest))
      simp only [List.append_assoc, List.cons_append, List.nil_append]
      refine readStatements_of_bracket ?_ bound
      rw [readHeader, hkey]
      rfl
    · rw [Progress.step, hp]
      rfl
  have h := (runs_blank p).append hline
  simpa only [elementHeader, List.append_assoc, List.cons_append, List.nil_append] using h

end Sweep.Toml
