import Mathlib.Data.List.Forall2
import Sweep.Proofs.Template.Cut

/-!
# Rendering is one substitution

A text is a template if it can be written as literals without braces and placeholders whose texts
are a key and, if there is one, a conversion (`Scan.IsTemplate`). Compiling accepts these texts and
no others. Rendering a compiled one gives the literals with a value between each two,
`L₀ v₁ L₁ … vₙ Lₙ`; the values are what the document and the conversion have for the placeholder
(`Yields`) and are **not read again**: the braces of a value stay as they are.

The compiled parts are what is left of the text. So everything about rendering is told by one
induction over the marks of the cut, along with the compilation that made the parts.
-/

set_option autoImplicit false

namespace Sweep.Template

/-! ## Templates -/

/-- The key text is a key, and the format text, if any, a conversion. -/
def Placeholder.HasMeaning (p : Placeholder) : Prop :=
  (∃ key, Key.parse p.key = .ok key) ∧
    ∀ format ∈ p.format, ∃ conversion, Conversion.read format = .ok conversion

/-- Literals without braces, and placeholders that mean something. -/
structure Scan.IsTemplate (cut : Scan) : Prop where
  literal : ∀ mark ∈ cut.marked, BraceFree mark.1
  wellFormed : ∀ mark ∈ cut.marked, mark.2.WellFormed
  hasMeaning : ∀ mark ∈ cut.marked, mark.2.HasMeaning
  tail : BraceFree cut.tail

theorem Scan.IsTemplate.scan_eq {cut : Scan} (h : cut.IsTemplate) : scan cut.text = cut :=
  scan_text (fun mark hm => ⟨h.literal mark hm, h.wellFormed mark hm⟩) h.tail

/-- A text is a template if its own cut is one; there is no other to look at. -/
theorem exists_isTemplate_iff (cs : List Char) :
    (∃ cut : Scan, cut.IsTemplate ∧ cut.text = cs) ↔ (scan cs).IsTemplate := by
  constructor
  · rintro ⟨cut, hc, rfl⟩
    rw [hc.scan_eq]
    exact hc
  · exact fun h => ⟨scan cs, h, text_scan cs⟩

/-! ## Compiling -/

theorem compileLiteral_eq_ok_iff (text : List Char) (parts : List Part) :
    compileLiteral text = .ok parts ↔
      BraceFree text ∧ parts = if text.isEmpty then [] else [.literal text] := by
  rw [compileLiteral, ← all_isFormatChar_iff]
  by_cases h : text.all isFormatChar = true
  · rw [if_pos h, Except.ok.injEq, eq_comm]
    exact ⟨fun he => ⟨h, he⟩, fun he => he.2⟩
  · rw [if_neg h]
    simp [h]

theorem hasMeaning_of_compilePlaceholder {p : Placeholder} {part : Part}
    (h : compilePlaceholder p = .ok part) :
    p.HasMeaning := by
  rw [compilePlaceholder] at h
  cases hk : Key.read p.key with
  | error why =>
    rw [hk] at h
    exact absurd h (by simp)
  | ok key =>
    refine ⟨⟨key, by rw [Key.parse, hk]; rfl⟩, fun format hf => ?_⟩
    obtain hf : p.format = some format := hf
    simp only [hk, hf] at h
    cases hc : Conversion.read format with
    | error why =>
      rw [hc] at h
      exact absurd h (by simp)
    | ok conversion => exact ⟨conversion, rfl⟩

/-- What a placeholder is compiled to. -/
theorem compilePlaceholder_plain {text : String} {key : Key} (hk : Key.parse text = .ok key) :
    compilePlaceholder ⟨text, none⟩ = .ok (.placeholder key none) := by
  rw [Key.parse, Except.mapError_eq_ok_iff] at hk
  rw [compilePlaceholder, hk]

theorem compilePlaceholder_formatted {text format : String} {key : Key} {conversion : Conversion}
    (hk : Key.parse text = .ok key) (hc : Conversion.read format = .ok conversion) :
    compilePlaceholder ⟨text, some format⟩ =
      .ok (.placeholder key (some (format, conversion))) := by
  rw [Key.parse, Except.mapError_eq_ok_iff] at hk
  simp only [compilePlaceholder, hk, hc]

theorem exists_compilePlaceholder_iff (p : Placeholder) :
    (∃ part, compilePlaceholder p = .ok part) ↔ p.HasMeaning := by
  constructor
  · rintro ⟨part, h⟩
    exact hasMeaning_of_compilePlaceholder h
  · rintro ⟨⟨key, hk⟩, hf⟩
    obtain ⟨text, format⟩ := p
    cases format with
    | none => exact ⟨_, compilePlaceholder_plain hk⟩
    | some format =>
      obtain ⟨conversion, hc⟩ := hf format rfl
      exact ⟨_, compilePlaceholder_formatted hk hc⟩

theorem compileMarked_cons_eq_ok_iff (tail literal : List Char) (p : Placeholder)
    (rest : List (List Char × Placeholder)) (parts : List Part) :
    compileMarked tail ((literal, p) :: rest) = .ok parts ↔
      ∃ before part after, compileLiteral literal = .ok before ∧ compilePlaceholder p = .ok part ∧
        compileMarked tail rest = .ok after ∧ parts = before ++ part :: after := by
  rw [compileMarked]
  simp only [Except.bind_eq_ok_iff, pure, Except.pure, Except.ok.injEq]
  constructor
  · rintro ⟨before, hb, part, hp, after, ha, rfl⟩
    exact ⟨before, part, after, hb, hp, ha, rfl⟩
  · rintro ⟨before, part, after, hb, hp, ha, rfl⟩
    exact ⟨before, hb, part, hp, after, ha, rfl⟩

theorem exists_compileMarked_iff (tail : List Char) (marked : List (List Char × Placeholder)) :
    (∃ parts, compileMarked tail marked = .ok parts) ↔
      (∀ mark ∈ marked, BraceFree mark.1 ∧ mark.2.HasMeaning) ∧ BraceFree tail := by
  induction marked with
  | nil =>
    simp only [compileMarked, compileLiteral_eq_ok_iff]
    simp
  | cons mark rest ih =>
    obtain ⟨literal, p⟩ := mark
    rw [List.forall_mem_cons, and_assoc, ← ih, ← exists_compilePlaceholder_iff]
    simp only [compileMarked_cons_eq_ok_iff, compileLiteral_eq_ok_iff]
    constructor
    · rintro ⟨parts, before, part, after, ⟨hl, -⟩, hp, ha, -⟩
      exact ⟨⟨hl, part, hp⟩, after, ha⟩
    · rintro ⟨⟨hl, part, hp⟩, after, ha⟩
      exact ⟨_, _, part, after, ⟨hl, rfl⟩, hp, ha, rfl⟩

theorem compile_eq_ok_iff (text : String) (template : Template) :
    compile text = .ok template ↔
      compileMarked (scan text.toList).tail (scan text.toList).marked = .ok template.parts := by
  rw [compile]
  obtain ⟨parts⟩ := template
  cases hm : compileMarked (scan text.toList).tail (scan text.toList).marked with
  | ok found => simp
  | error why => simp

/-- **Exactly the templates compile.** -/
theorem exists_compile_iff (text : String) :
    (∃ template, compile text = .ok template) ↔ (scan text.toList).IsTemplate := by
  have hw := (cuts_scan text.toList).wellFormed
  constructor
  · rintro ⟨template, h⟩
    obtain ⟨hm, ht⟩ := (exists_compileMarked_iff _ _).1 ⟨_, (compile_eq_ok_iff text template).1 h⟩
    exact ⟨fun mark hmark => (hm mark hmark).1, hw, fun mark hmark => (hm mark hmark).2, ht⟩
  · intro h
    obtain ⟨parts, hp⟩ := (exists_compileMarked_iff _ _).2
      ⟨fun mark hm => ⟨h.literal mark hm, h.hasMeaning mark hm⟩, h.tail⟩
    exact ⟨⟨parts⟩, (compile_eq_ok_iff text ⟨parts⟩).2 hp⟩

theorem compile_ok_or_error (text : String) :
    (∃ template, compile text = .ok template) ∨
      ∃ why, compile text = .error (.malformedTemplate text why) := by
  rw [compile]
  cases compileMarked (scan text.toList).tail (scan text.toList).marked with
  | ok parts => exact .inl ⟨_, rfl⟩
  | error why => exact .inr ⟨why, rfl⟩

/-! ## Rendering -/

/-- What a document has for a placeholder: the text that stands in its place, or the fault that ends
the rendering. -/
inductive Yields (doc : Document) : Placeholder → Except Fault (List Char) → Prop where
  | plain {text : String} {key : Key} {value : Value} : Key.parse text = .ok key →
      doc.get key = .ok value → Yields doc ⟨text, none⟩ (.ok value.display)
  | formatted {text format : String} {key : Key} {conversion : Conversion} {value : Value}
      {shown : List Char} : Key.parse text = .ok key → Conversion.read format = .ok conversion →
      doc.get key = .ok value → conversion.apply value = .ok shown →
      Yields doc ⟨text, some format⟩ (.ok shown)
  | nothing {p : Placeholder} {key : Key} {fault : Fault} : Key.parse p.key = .ok key →
      doc.get key = .error fault → Yields doc p (.error fault)
  | mismatch {text format : String} {key : Key} {conversion : Conversion} {value : Value}
      {why : Mismatch} : Key.parse text = .ok key → Conversion.read format = .ok conversion →
      doc.get key = .ok value → conversion.apply value = .error why →
      Yields doc ⟨text, some format⟩ (.error (.cannotFormat key format why))

theorem Yields.render_eq {doc : Document} {p : Placeholder} {part : Part}
    {result : Except Fault (List Char)} (h : Yields doc p result)
    (hp : compilePlaceholder p = .ok part) : part.render doc = result := by
  cases h with
  | plain hk hv =>
    rw [compilePlaceholder_plain hk] at hp
    cases hp
    simp only [Part.render, hv]
  | formatted hk hc hv ha =>
    rw [compilePlaceholder_formatted hk hc] at hp
    cases hp
    simp only [Part.render, hv, ha]
  | nothing hk hv =>
    obtain ⟨text, format⟩ := p
    cases format with
    | none =>
      rw [compilePlaceholder_plain hk] at hp
      cases hp
      simp only [Part.render, hv]
    | some format =>
      obtain ⟨conversion, hc⟩ := (hasMeaning_of_compilePlaceholder hp).2 format rfl
      rw [compilePlaceholder_formatted hk hc] at hp
      cases hp
      simp only [Part.render, hv]
  | mismatch hk hc hv ha =>
    rw [compilePlaceholder_formatted hk hc] at hp
    cases hp
    simp only [Part.render, hv, ha]

theorem yields_render (doc : Document) {p : Placeholder} {part : Part}
    (hp : compilePlaceholder p = .ok part) :
    Yields doc p (part.render doc) := by
  obtain ⟨⟨key, hk⟩, hf⟩ := hasMeaning_of_compilePlaceholder hp
  obtain ⟨text, format⟩ := p
  cases format with
  | none =>
    rw [compilePlaceholder_plain hk] at hp
    cases hp
    cases hv : doc.get key with
    | error fault =>
      simp only [Part.render, hv]
      exact .nothing hk hv
    | ok value =>
      simp only [Part.render, hv]
      exact .plain hk hv
  | some format =>
    obtain ⟨conversion, hc⟩ := hf format rfl
    rw [compilePlaceholder_formatted hk hc] at hp
    cases hp
    cases hv : doc.get key with
    | error fault =>
      simp only [Part.render, hv]
      exact .nothing hk hv
    | ok value =>
      cases ha : conversion.apply value with
      | error why =>
        simp only [Part.render, hv, ha]
        exact .mismatch hk hc hv ha
      | ok shown =>
        simp only [Part.render, hv, ha]
        exact .formatted hk hc hv ha

/-- **A placeholder yields what its part renders to**, and nothing else. -/
theorem yields_iff {p : Placeholder} {part : Part} (hp : compilePlaceholder p = .ok part)
    (doc : Document) (result : Except Fault (List Char)) :
    Yields doc p result ↔ part.render doc = result := by
  constructor
  · exact fun h => h.render_eq hp
  · rintro rfl
    exact yields_render doc hp

/-- The literals of a cut with values in the places of its placeholders. -/
def Scan.withValues (cut : Scan) (values : List (List Char)) : List Char :=
  (cut.marked.zipWith (fun mark value => mark.1 ++ value) values).flatten ++ cut.tail

theorem Scan.withValues_cons (literal value tail : List Char) (p : Placeholder)
    (rest : List (List Char × Placeholder)) (values : List (List Char)) :
    withValues ⟨(literal, p) :: rest, tail⟩ (value :: values) =
      literal ++ (value ++ withValues ⟨rest, tail⟩ values) := by
  simp [withValues]

section Parts

variable {doc : Document} {literal tail : List Char} {p : Placeholder}
    {before after parts : List Part} {part : Part}

theorem renderParts_literal (hl : compileLiteral literal = .ok before) (more : List Part) :
    renderParts doc (before ++ more) = (renderParts doc more).map (literal ++ ·) := by
  obtain ⟨-, rfl⟩ := (compileLiteral_eq_ok_iff literal before).1 hl
  cases literal with
  | nil =>
    show renderParts doc more = _
    cases renderParts doc more <;> rfl
  | cons c cs =>
    show renderParts doc (.literal (c :: cs) :: more) = _
    rw [renderParts]
    cases renderParts doc more <;> rfl

theorem renderParts_tail (hl : compileLiteral tail = .ok parts) :
    renderParts doc parts = .ok tail := by
  have h : renderParts doc (parts ++ []) = (renderParts doc []).map (tail ++ ·) :=
    renderParts_literal hl []
  rw [List.append_nil] at h
  rw [h]
  show Except.ok (tail ++ []) = _
  rw [List.append_nil]

theorem renderParts_mark (hl : compileLiteral literal = .ok before) :
    renderParts doc (before ++ part :: after) =
      (do let value ← part.render doc
          let more ← renderParts doc after
          return literal ++ (value ++ more)) := by
  rw [renderParts_literal hl, renderParts]
  cases part.render doc with
  | error fault => rfl
  | ok value => cases renderParts doc after <;> rfl

end Parts

/-- **What parts render to**: the literals with the values of the placeholders. -/
theorem renderParts_eq_ok_iff {tail : List Char} {marked : List (List Char × Placeholder)}
    {parts : List Part} (h : compileMarked tail marked = .ok parts) (doc : Document)
    (out : List Char) :
    renderParts doc parts = .ok out ↔
      ∃ values, List.Forall₂ (fun mark value => Yields doc mark.2 (.ok value)) marked values ∧
        out = Scan.withValues ⟨marked, tail⟩ values := by
  induction marked generalizing parts out with
  | nil =>
    rw [renderParts_tail h, Except.ok.injEq, eq_comm]
    simp [Scan.withValues]
  | cons mark rest ih =>
    obtain ⟨literal, p⟩ := mark
    obtain ⟨before, part, after, hl, hp, ha, rfl⟩ :=
      (compileMarked_cons_eq_ok_iff tail literal p rest parts).1 h
    rw [renderParts_mark hl]
    simp only [Except.bind_eq_ok_iff, pure, Except.pure, Except.ok.injEq]
    constructor
    · rintro ⟨value, hv, more, hm, rfl⟩
      obtain ⟨values, hvs, rfl⟩ := (ih ha more).1 hm
      exact ⟨value :: values, .cons ((yields_iff hp doc _).2 hv) hvs,
        (Scan.withValues_cons ..).symm⟩
    · rintro ⟨values, hvs, rfl⟩
      cases hvs with
      | cons hv hvs =>
        refine ⟨_, (yields_iff hp doc _).1 hv, _, (ih ha _).2 ⟨_, hvs, rfl⟩, ?_⟩
        rw [Scan.withValues_cons]

/-- **What ends a rendering**: the fault of the leftmost placeholder that has one. -/
theorem renderParts_eq_error_iff {tail : List Char} {marked : List (List Char × Placeholder)}
    {parts : List Part} (h : compileMarked tail marked = .ok parts) (doc : Document)
    (fault : Fault) :
    renderParts doc parts = .error fault ↔
      ∃ front mark back, marked = front ++ mark :: back ∧
        (∀ earlier ∈ front, ∃ value, Yields doc earlier.2 (.ok value)) ∧
        Yields doc mark.2 (.error fault) := by
  induction marked generalizing parts with
  | nil =>
    rw [renderParts_tail h]
    simp
  | cons mark rest ih =>
    obtain ⟨literal, p⟩ := mark
    obtain ⟨before, part, after, hl, hp, ha, rfl⟩ :=
      (compileMarked_cons_eq_ok_iff tail literal p rest parts).1 h
    rw [renderParts_mark hl, Except.bind_eq_error_iff]
    constructor
    · rintro (hv | ⟨value, hv, hm⟩)
      · exact ⟨[], (literal, p), rest, rfl, by simp, (yields_iff hp doc _).2 hv⟩
      · have hr : renderParts doc after = .error fault := by
          rcases Except.bind_eq_error_iff.1 hm with hr | ⟨more, -, hn⟩
          · exact hr
          · exact absurd hn (by simp [pure, Except.pure])
        obtain ⟨front, mark, back, rfl, hf, hy⟩ := (ih ha).1 hr
        exact ⟨(literal, p) :: front, mark, back, rfl,
          List.forall_mem_cons.2 ⟨⟨value, (yields_iff hp doc _).2 hv⟩, hf⟩, hy⟩
    · rintro ⟨front, mark, back, he, hf, hy⟩
      cases front with
      | nil =>
        obtain ⟨rfl, -⟩ := List.cons.inj he
        exact .inl ((yields_iff hp doc _).1 hy)
      | cons first front =>
        obtain ⟨rfl, rfl⟩ := List.cons.inj he
        obtain ⟨⟨value, hv⟩, hf⟩ := List.forall_mem_cons.1 hf
        refine .inr ⟨value, (yields_iff hp doc _).1 hv, ?_⟩
        rw [(ih ha).2 ⟨front, mark, back, rfl, hf, hy⟩]
        rfl

/-! ## One pass -/

theorem render_eq_ok_iff (template : Template) (doc : Document) (out : String) :
    template.render doc = .ok out ↔ renderParts doc template.parts = .ok out.toList := by
  rw [render, Except.map_eq_ok_iff]
  constructor
  · rintro ⟨cs, h, rfl⟩
    rw [h, String.toList_ofList]
  · intro h
    exact ⟨_, h, String.ofList_toList⟩

theorem render_eq_error_iff (template : Template) (doc : Document) (fault : Fault) :
    template.render doc = .error fault ↔ renderParts doc template.parts = .error fault := by
  rw [render]
  cases renderParts doc template.parts with
  | error other =>
    show Except.error other = _ ↔ _
    simp
  | ok cs =>
    show Except.ok (String.ofList cs) = _ ↔ _
    simp

/-- **Compiling and rendering is one substitution.** A text compiles exactly if it can be written as
literals without braces and placeholders with a meaning, and there is one way only to write it so;
every other text is a malformed template, named with the whole text. The template then renders to
the literals with the values of the placeholders, or to the fault of the leftmost placeholder that
has none. -/
theorem compile_render_one_pass (text : String) :
    (∀ cut other : Scan, cut.IsTemplate → other.IsTemplate → cut.text = text.toList →
      other.text = text.toList →
        cut = other) ∧
      ((∃ template, compile text = .ok template) ↔
        ∃ cut : Scan, cut.IsTemplate ∧ cut.text = text.toList) ∧
      ((∃ template, compile text = .ok template) ∨
        ∃ why, compile text = .error (.malformedTemplate text why)) ∧
      ∀ (cut : Scan) (template : Template), cut.IsTemplate → cut.text = text.toList →
        compile text = .ok template →
        ∀ doc,
          (∀ out, template.render doc = .ok out ↔
            ∃ values, List.Forall₂ (fun mark value => Yields doc mark.2 (.ok value))
              cut.marked values ∧ out.toList = cut.withValues values) ∧
          ∀ fault, template.render doc = .error fault ↔
            ∃ front mark back, cut.marked = front ++ mark :: back ∧
              (∀ earlier ∈ front, ∃ value, Yields doc earlier.2 (.ok value)) ∧
              Yields doc mark.2 (.error fault) := by
  refine ⟨?_, ?_, compile_ok_or_error text, ?_⟩
  · intro cut other hc ho ht ht'
    rw [← hc.scan_eq, ← ho.scan_eq, ht, ht']
  · rw [exists_compile_iff, exists_isTemplate_iff]
  · intro cut template hc ht h doc
    rw [compile_eq_ok_iff, ← ht, hc.scan_eq] at h
    refine ⟨fun out => ?_, fun fault => ?_⟩
    · rw [render_eq_ok_iff, renderParts_eq_ok_iff h]
    · rw [render_eq_error_iff, renderParts_eq_error_iff h]

/-- A value that looks like a placeholder stays as it is. -/
example :
    (compile "\x7ba\x7d, \x7bb|%4s\x7d").bind
      (·.render ⟨[("a", .text "\x7bb\x7d"), ("b", .text "é")]⟩) = .ok "\x7bb\x7d,    é" := by
  decide +kernel

end Sweep.Template
