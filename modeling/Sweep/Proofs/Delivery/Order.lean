import Mathlib.Tactic.Choose
import Sweep.Proofs.Delivery.Templates
import Sweep.Proofs.Document.Fill

/-!
# The order of rendering

The values of a leaf are rendered one after the other, each in the document that the ones before it
left. A template sees of that document what its placeholders look up and nothing else
(`render_congr`), and a look-up sees of a text that was written over another text only two things:
the text itself, and whatever it is shown as a part of. So if no template mentions another key to
render, or a table that such a key lies in, every template renders as in the leaf as it came:

> rendering all values is filling in, at each key, what its template renders to **in the leaf**
> (`renderAll_eq_fill`).

A template may mention its own key and the tables around it, and it may mention keys that lead
through a text: those are no places before and after. The fault that is reported can depend on the
order, since the first one ends the rendering; whether there is one cannot.
-/

set_option autoImplicit false

namespace Sweep

namespace Document

/-! ## Looking up around a text -/

/-- No path leads through what is no table; the walk stops at the last segment of the way to it. -/
theorem lookUp_through {key other : Key} {path rest : List String} {entries : List (String × Value)}
    {held : Value} (h : lookUp key path entries = .ok held) (hl : held.IsLeaf) (hr : rest ≠ []) :
    lookUp other (path ++ rest) entries = .error (.notADocument other (path.getLastD "")) := by
  induction path generalizing entries with
  | nil => exact absurd h (by simp [lookUp])
  | cons segment path ih =>
    cases path with
    | nil =>
      obtain ⟨next, rest, rfl⟩ := List.exists_cons_of_ne_nil hr
      rw [lookUp] at h
      split at h
      · next hf =>
        cases h
        cases held with
        | table inner => exact absurd rfl (hl inner)
        | _ => simp [lookUp, hf]
      · cases h
    | cons next path =>
      obtain ⟨inner, hf, hin⟩ := lookUp_eq_ok_of_cons h
      have hi := ih hin
      simp only [List.cons_append] at hi
      simp only [List.cons_append, lookUp, hf]
      rw [hi]
      rfl

/-- **A write over a leaf is seen only by the tables around it.** A key that leads through the place
is no place before the write, and none after it. -/
theorem get_put_of_not_prefix {doc : Document} {key other : Key} {held new : Value}
    (h : doc.get key = .ok held) (hl : held.IsLeaf) (hn : new.IsLeaf)
    (hp : ¬ other.segments <+: key.segments) :
    (doc.put key new).get other = doc.get other := by
  by_cases hthrough : key.segments <+: other.segments
  · obtain ⟨rest, hs⟩ := hthrough
    have hr : rest ≠ [] := by
      intro he
      rw [he, List.append_nil] at hs
      exact hp (by rw [hs])
    have hself := get_put_self h new
    rw [get] at h hself
    rw [get, get, ← hs, lookUp_through h hl hr, lookUp_through hself hn hr]
  · exact get_put_of_apart ⟨hthrough, hp⟩ doc new

/-- The values at keys are templates, and none of them mentions another one of the keys or a table
that it lies in. -/
def Independent (doc : Document) (keys : List Key) : Prop :=
  ∀ key ∈ keys, ∃ source template, doc.get key = .ok (.text source) ∧
    Template.compile source = .ok template ∧ ∀ mentioned ∈ template.keys,
      ∀ other ∈ keys, other ≠ key → ¬ mentioned.segments <+: other.segments

end Document

namespace Template

/-! ## What a template sees -/

theorem renderPart_congr {doc other : Document} {part : Part}
    (h : ∀ key ∈ part.key?, doc.get key = other.get key) :
    part.render doc = part.render other := by
  cases part with
  | literal text => rfl
  | placeholder key format =>
    have hk : doc.get key = other.get key := h key rfl
    cases format with
    | none => simp only [Part.render, hk]
    | some format => simp only [Part.render, hk]

theorem renderParts_congr {doc other : Document} {parts : List Part}
    (h : ∀ part ∈ parts, ∀ key ∈ part.key?, doc.get key = other.get key) :
    renderParts doc parts = renderParts other parts := by
  induction parts with
  | nil => rfl
  | cons part rest ih =>
    obtain ⟨hpart, hrest⟩ := List.forall_mem_cons.1 h
    simp only [renderParts, renderPart_congr hpart, ih hrest]

/-- **A template sees of a document what is at its keys**, and nothing else. -/
theorem render_congr {doc other : Document} {template : Template}
    (h : ∀ key ∈ template.keys, doc.get key = other.get key) :
    template.render doc = template.render other := by
  have hparts : renderParts doc template.parts = renderParts other template.parts := by
    apply renderParts_congr
    intro part hp key hk
    exact h key (List.mem_filterMap.2 ⟨part, hp, hk⟩)
  simp only [render, hparts]

end Template

namespace Delivery

open Expansion

/-! ## One value after the other -/

section Independent

variable {doc : Document} {key : Key} {keys rest : List Key}

theorem isLeaf_text (text : String) : (Value.text text).IsLeaf := by
  intro entries
  simp

/-- A write at one of the keys is not seen by the template at another one. -/
theorem renderAt_put (hi : doc.Independent keys) (hk : key ∈ keys) {other : Key} (ho : other ∈ keys)
    (hne : other ≠ key) (text : String) :
    renderAt (doc.put key (.text text)) other = renderAt doc other := by
  obtain ⟨old, -, hold, -, -⟩ := hi key hk
  obtain ⟨source, template, hsource, hcompile, hmentions⟩ := hi other ho
  have hget : (doc.put key (.text text)).get other = .ok (.text source) :=
    get_put_of_isLeaf hold (isLeaf_text old) hsource (isLeaf_text source) hne.symm _
  have hrender : template.render (doc.put key (.text text)) = template.render doc := by
    apply Template.render_congr
    intro mentioned hm
    exact Document.get_put_of_not_prefix hold (isLeaf_text old) (isLeaf_text text)
      (hmentions mentioned hm key hk hne.symm)
  simp only [renderAt, hget, hsource, hcompile, hrender]

theorem independent_put (hd : (key :: rest).Nodup) (hi : doc.Independent (key :: rest))
    (text : String) :
    (doc.put key (.text text)).Independent rest := by
  intro other ho
  have hne : key ≠ other := by
    intro he
    exact (List.nodup_cons.1 hd).1 (he ▸ ho)
  obtain ⟨old, -, hold, -, -⟩ := hi key List.mem_cons_self
  obtain ⟨source, template, hsource, hcompile, hmentions⟩ := hi other (List.mem_cons_of_mem key ho)
  refine ⟨source, template, ?_, hcompile, ?_⟩
  · exact get_put_of_isLeaf hold (isLeaf_text old) hsource (isLeaf_text source) hne _
  · intro mentioned hm third ht
    exact hmentions mentioned hm third (List.mem_cons_of_mem key ht)

/-- What the values at keys render to, written at the keys. -/
def renderings (keys : List Key) (texts : Key → String) : List (Key × Value) :=
  keys.map fun key => (key, .text (texts key))

/-- **Rendering one value after the other is filling in what each renders to in the leaf.** -/
theorem renderAll_eq_fill (hd : keys.Nodup) (hi : doc.Independent keys) {texts : Key → String}
    (ht : ∀ key ∈ keys, renderAt doc key = .ok (texts key)) :
    (renderAll keys doc).outcome = .ok () ∧
      (renderAll keys doc).document = doc.fill (renderings keys texts) := by
  induction keys generalizing doc with
  | nil => exact ⟨rfl, rfl⟩
  | cons key rest ih =>
    obtain ⟨hkey, hrest⟩ := List.forall_mem_cons.1 ht
    obtain ⟨hn, hdrest⟩ := List.nodup_cons.1 hd
    obtain ⟨source, -, hsource, -, -⟩ := hi key List.mem_cons_self
    rw [renderAll_cons_of_ok hkey hsource]
    -- the others render in the changed document to what they render to in the leaf
    apply ih hdrest (independent_put hd hi _)
    intro other ho
    have hne : other ≠ key := by
      intro he
      exact hn (he ▸ ho)
    rw [renderAt_put hi List.mem_cons_self (List.mem_cons_of_mem key ho) hne]
    exact hrest other ho

/-- If one value cannot be rendered in the leaf, all of them cannot, whatever comes first. -/
theorem renderAll_of_error (hd : keys.Nodup) (hi : doc.Independent keys) {other : Key}
    (ho : other ∈ keys) {fault : Fault} (he : renderAt doc other = .error fault) :
    ∃ first, (renderAll keys doc).outcome = .error first := by
  induction keys generalizing doc with
  | nil => exact absurd ho (by simp)
  | cons key rest ih =>
    obtain ⟨hn, hdrest⟩ := List.nodup_cons.1 hd
    cases hkey : renderAt doc key with
    | error first => exact ⟨first, by simp [renderAll, hkey]⟩
    | ok text =>
      obtain ⟨source, -, hsource, -, -⟩ := hi key List.mem_cons_self
      have hne : other ≠ key := by
        intro heq
        rw [heq, hkey] at he
        cases he
      have hmem : other ∈ rest := (List.mem_cons.1 ho).resolve_left hne
      rw [renderAll_cons_of_ok hkey hsource]
      apply ih hdrest (independent_put hd hi text) hmem
      rw [renderAt_put hi List.mem_cons_self ho hne, he]

theorem independent_perm {order : List Key} (hp : order.Perm keys) (hi : doc.Independent keys) :
    doc.Independent order := by
  intro key hk
  obtain ⟨source, template, hsource, hcompile, hmentions⟩ := hi key (hp.mem_iff.1 hk)
  refine ⟨source, template, hsource, hcompile, ?_⟩
  intro mentioned hm other ho
  exact hmentions mentioned hm other (hp.mem_iff.1 ho)

theorem pairwise_apart (hd : keys.Nodup) (hi : doc.Independent keys) : keys.Pairwise Key.Apart := by
  refine hd.imp_of_mem fun {key other} hk ho hne => ?_
  obtain ⟨source, -, hsource, -, -⟩ := hi key hk
  obtain ⟨old, -, hold, -, -⟩ := hi other ho
  exact Document.apart_of_get hsource (isLeaf_text source) hold (isLeaf_text old) hne

end Independent

/-! ## Any order of the keys -/

section Draft

variable {plan : Plan} {doc : Document} {order : List Key} {d : Draft}

/-- A leaf with a draft: what each of its values renders to, and the document that is delivered. -/
theorem exists_texts_of_draft (hd : plan.render.Nodup) (hi : doc.Independent plan.render)
    (h : draft plan doc = .ok d) :
    ∃ texts : Key → String, (∀ key ∈ plan.render, renderAt doc key = .ok (texts key)) ∧
      d.document = doc.fill (renderings plan.render texts) ∧
      plan.output.render d.document = .ok d.path := by
  obtain ⟨hr, hp, hdoc⟩ := draft_eq_ok h
  have hall : ∀ key ∈ plan.render, ∃ text, renderAt doc key = .ok text := by
    intro key hk
    cases hkey : renderAt doc key with
    | ok text => exact ⟨text, rfl⟩
    | error fault =>
      obtain ⟨first, hfirst⟩ := renderAll_of_error hd hi hk hkey
      rw [hr] at hfirst
      cases hfirst
  choose! texts htexts using hall
  refine ⟨texts, htexts, ?_, by rw [hdoc, hp]⟩
  rw [hdoc, (renderAll_eq_fill hd hi htexts).2]

theorem fst_renderings (keys : List Key) (texts : Key → String) :
    (renderings keys texts).map Prod.fst = keys := by
  rw [renderings, List.map_map]
  exact List.map_id' keys

theorem draft_of_perm (hp : order.Perm plan.render) (hd : plan.render.Nodup)
    (hi : doc.Independent plan.render) (h : draft plan doc = .ok d) :
    draft { plan with render := order } doc = .ok d := by
  obtain ⟨texts, htexts, hdoc, hpath⟩ := exists_texts_of_draft hd hi h
  have hpairwise := pairwise_apart hd hi
  have horder : ∀ key ∈ order, renderAt doc key = .ok (texts key) := by
    intro key hk
    exact htexts key (hp.mem_iff.1 hk)
  obtain ⟨hok, hfill⟩ := renderAll_eq_fill (hp.nodup_iff.2 hd) (independent_perm hp hi) horder
  -- the same texts at the same keys, which are apart
  have hsame : doc.fill (renderings order texts) = d.document := by
    rw [hdoc]
    have hwrites : (renderings order texts).Perm (renderings plan.render texts) := hp.map _
    apply Document.fill_perm hwrites
    rw [fst_renderings]
    exact (hp.pairwise_iff Key.Apart.symm).2 hpairwise
  simp only [draft, hok, hfill, hsame, hpath]
  rfl

/-- **The order of the keys makes no other draft**, and no draft where there is none. -/
theorem draft_perm_iff (hp : order.Perm plan.render) (hd : plan.render.Nodup)
    (hi : doc.Independent plan.render) :
    draft { plan with render := order } doc = .ok d ↔ draft plan doc = .ok d := by
  constructor
  · intro h
    have hback : plan.render.Perm ({ plan with render := order } : Plan).render := hp.symm
    exact @draft_of_perm { plan with render := order } doc plan.render d hback (hp.nodup_iff.2 hd)
      (independent_perm hp hi) h
  · exact draft_of_perm hp hd hi

/-- What is delivered has at each key what the template there renders to in the leaf. -/
theorem get_of_draft (hd : plan.render.Nodup) (hi : doc.Independent plan.render)
    (h : draft plan doc = .ok d) {key : Key} (hk : key ∈ plan.render) :
    ∃ source template text, doc.get key = .ok (.text source) ∧
      Template.compile source = .ok template ∧ template.render doc = .ok text ∧
      d.document.get key = .ok (.text text) := by
  obtain ⟨texts, htexts, hdoc, -⟩ := exists_texts_of_draft hd hi h
  obtain ⟨source, template, hsource, hcompile, -⟩ := hi key hk
  have hrender := htexts key hk
  simp only [renderAt, hsource, hcompile] at hrender
  refine ⟨source, template, texts key, hsource, hcompile, hrender, ?_⟩
  have hwrite : (key, .text (texts key)) ∈ renderings plan.render texts :=
    List.mem_map.2 ⟨key, hk, rfl⟩
  have hapart : ((renderings plan.render texts).map Prod.fst).Pairwise Key.Apart := by
    rw [fst_renderings]
    exact pairwise_apart hd hi
  rw [hdoc]
  exact Document.get_fill_of_mem hapart hwrite hsource

theorem get_of_draft_of_apart (hd : plan.render.Nodup) (hi : doc.Independent plan.render)
    (h : draft plan doc = .ok d) {other : Key} (ho : ∀ key ∈ plan.render, key.Apart other) :
    d.document.get other = doc.get other := by
  obtain ⟨texts, -, hdoc, -⟩ := exists_texts_of_draft hd hi h
  rw [hdoc]
  apply Document.get_fill_of_apart
  intro write hw
  obtain ⟨key, hk, rfl⟩ := List.mem_map.1 hw
  exact ho key hk

theorem draft_error_of_perm (hp : order.Perm plan.render) (hd : plan.render.Nodup)
    (hi : doc.Independent plan.render) {fault : Fault} (h : draft plan doc = .error fault) :
    ∃ first, draft { plan with render := order } doc = .error first := by
  cases horder : draft { plan with render := order } doc with
  | error first => exact ⟨first, rfl⟩
  | ok d =>
    have hd := (draft_perm_iff hp hd hi).1 horder
    rw [h] at hd
    cases hd

variable {m : Type → Type} [Monad m] [LawfulMonad m]

theorem emit_of_ok (h : draft plan doc = .ok d) (outlet : Outlet m) :
    emit plan outlet doc = (fun outcome => (outcome, doc)) <$> handOver outlet d := by
  rw [emit_eq, visit_of_ok h]

/-- A leaf without a draft asks nothing of the outlet. -/
theorem emit_of_error {fault : Fault} (h : draft plan doc = .error fault) (outlet : Outlet m) :
    emit plan outlet doc = pure (.error fault, doc) := by
  rw [emit_eq, visit_of_error h, map_pure]

end Draft

/-- **Templates that do not mention each other can be rendered in any order.** Whether a leaf is
delivered does not depend on it, and what is delivered is the same document at the same path: at
each key its template, rendered in the leaf as it came, and the leaf everywhere else. A leaf that is
not delivered for the sake of its templates asks nothing of the outlet in any order. -/
theorem emit_in_any_order {plan : Plan} {doc : Document} {order : List Key}
    (hp : order.Perm plan.render) (hd : plan.render.Nodup) (hi : doc.Independent plan.render) :
    (∀ dry site, (emit { plan with render := order } (Site.outlet dry) doc site).1.1 = .ok () ↔
        (emit plan (Site.outlet dry) doc site).1.1 = .ok ()) ∧
      (∀ d, draft plan doc = .ok d →
        (∀ (m : Type → Type) [Monad m] [LawfulMonad m] (outlet : Outlet m),
          emit { plan with render := order } outlet doc = (fun outcome => (outcome, doc)) <$>
            handOver outlet d) ∧
        plan.output.render d.document = .ok d.path ∧
        (∀ key ∈ plan.render, ∃ source template text, doc.get key = .ok (.text source) ∧
          Template.compile source = .ok template ∧ template.render doc = .ok text ∧
          d.document.get key = .ok (.text text)) ∧
        ∀ other, (∀ key ∈ plan.render, key.Apart other) → d.document.get other = doc.get other) ∧
      ∀ fault, draft plan doc = .error fault →
        ∃ first, ∀ (m : Type → Type) [Monad m] [LawfulMonad m] (outlet : Outlet m),
        emit { plan with render := order } outlet doc = pure (.error first, doc) := by
  refine ⟨?_, ?_, ?_⟩
  · intro dry site
    cases hdraft : draft plan doc with
    | ok d => rw [emit_of_ok hdraft, emit_of_ok ((draft_perm_iff hp hd hi).2 hdraft)]
    | error fault =>
      obtain ⟨first, hfirst⟩ := draft_error_of_perm hp hd hi hdraft
      rw [emit_of_error hdraft, emit_of_error hfirst]
      constructor
      · intro hok
        cases hok
      · intro hok
        cases hok
  · intro d hdraft
    refine ⟨?_, ?_, ?_, ?_⟩
    · intro m _ _ outlet
      exact emit_of_ok ((draft_perm_iff hp hd hi).2 hdraft) outlet
    · obtain ⟨-, -, -, hpath⟩ := exists_texts_of_draft hd hi hdraft
      exact hpath
    · intro key hk
      exact get_of_draft hd hi hdraft hk
    · intro other ho
      exact get_of_draft_of_apart hd hi hdraft ho
  · intro fault hdraft
    obtain ⟨first, hfirst⟩ := draft_error_of_perm hp hd hi hdraft
    refine ⟨first, ?_⟩
    intro m _ _ outlet
    exact emit_of_error hfirst outlet

/-- A note and a directory to render; the directory is named for the table it lies in. -/
def notesPlan : Plan where
  output := ⟨[.placeholder ⟨["name"]⟩ none, .literal ['.', 'j', 's', 'o', 'n']]⟩
  expand := []
  render := [⟨["out", "dir"]⟩, ⟨["note"]⟩]
  bindings := ⟨[]⟩

/-- A document with the templates of `notesPlan`. -/
def notes : Document := ⟨[
  ("name", .text "a"), ("out", .table [("dir", .text "\x7bname\x7d\x7bout\x7d")]),
  ("note", .text "on \x7bname\x7d")]⟩

/-- What is delivered of `notes`: the directory shows its table as it came. -/
def notesDraft : Draft where
  path := "a.json"
  document := ⟨[
    ("name", .text "a"),
    ("out", .table [("dir", .text "a\x7b\"dir\":\"\x7bname\x7d\x7bout\x7d\"\x7d")]),
    ("note", .text "on a")]⟩

theorem draft_notes : draft notesPlan notes = .ok notesDraft := by cbv

/-- The note can be rendered first as well. -/
theorem emit_in_any_order_of_notes :
    [⟨["note"]⟩, ⟨["out", "dir"]⟩].Perm notesPlan.render ∧ notesPlan.render.Nodup ∧
      notes.Independent notesPlan.render ∧
      draft notesPlan notes = .ok notesDraft ∧
      emit { notesPlan with render := [⟨["note"]⟩, ⟨["out", "dir"]⟩] } (Site.outlet false) notes =
        (fun outcome => (outcome, notes)) <$> handOver (Site.outlet false) notesDraft := by
  have hp : [⟨["note"]⟩, ⟨["out", "dir"]⟩].Perm notesPlan.render := .swap _ _ []
  have hd : notesPlan.render.Nodup := by decide
  have hi : notes.Independent notesPlan.render := by
    intro key hk
    rcases List.mem_pair.1 hk with rfl | rfl
    · refine ⟨_, ⟨[.placeholder ⟨["name"]⟩ none, .placeholder ⟨["out"]⟩ none]⟩, rfl, by cbv, ?_⟩
      decide
    · refine ⟨_, ⟨[.literal ['o', 'n', ' '], .placeholder ⟨["name"]⟩ none]⟩, rfl, by cbv, ?_⟩
      decide
  exact ⟨hp, hd, hi, draft_notes, ((emit_in_any_order hp hd hi).2.1 notesDraft draft_notes).1 _ _⟩

end Delivery

end Sweep
