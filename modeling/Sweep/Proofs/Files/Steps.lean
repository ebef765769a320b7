import Mathlib.Data.List.Infix
import Mathlib.Data.List.TakeWhile
import Sweep.Files.Tree

/-!
# Where paths lead

A path starts at the root or at the working directory. It is cut into pieces at its slashes, and
each piece is a step: an idle one stays, two dots go back, a name goes further in. Without links
that settles which place a path names (`named`), and through which places it goes (`ancestors`),
whatever is there.

There are three ways to cut a path: all its pieces, its steps, and the reversed pieces without the
idle ones at the end. They differ in idle pieces only, and these lead nowhere. So all the paths that
are made out of one path, its parent and the ones in front of that, start where it starts and lead
to places on its way:

> `startOf_parent`, `steps_parent`: the parent starts where the path starts, and its steps are those
> of the path without the last one.
-/

set_option autoImplicit false

namespace Sweep.Files

open Sweep.Files.Path

/-! ## Pieces and their text -/

namespace Path

theorem pieces_ne_nil (text : List Char) : pieces text ≠ [] := by
  cases text with
  | nil => simp [pieces]
  | cons c rest =>
    rw [pieces]
    split
    · simp
    · split <;> simp

/-- Only the empty text is a single empty piece. -/
theorem pieces_ne_empty {text : List Char} (h : text ≠ []) : pieces text ≠ [[]] := by
  cases text with
  | nil => exact absurd rfl h
  | cons c rest =>
    rw [pieces]
    split
    · simp [pieces_ne_nil]
    · split <;> simp

theorem slash_notMem_of_mem_pieces {text : List Char} {piece : Piece} (h : piece ∈ pieces text) :
    '/' ∉ piece := by
  induction text generalizing piece with
  | nil =>
    rw [pieces, List.mem_singleton] at h
    simp [h]
  | cons c rest ih =>
    rw [pieces] at h
    by_cases hc : c = '/'
    · rw [if_pos hc] at h
      rcases List.mem_cons.1 h with rfl | h
      · simp
      · exact ih h
    · rw [if_neg hc] at h
      cases hp : pieces rest with
      | nil => exact absurd hp (pieces_ne_nil rest)
      | cons first more =>
        rw [hp] at h
        rcases List.mem_cons.1 h with rfl | h
        · have hf : '/' ∉ first := ih (by simp [hp])
          simp [Ne.symm hc, hf]
        · exact ih (by simp [hp, h])

theorem pieces_of_slash_notMem {piece : Piece} (h : '/' ∉ piece) : pieces piece = [piece] := by
  induction piece with
  | nil => rfl
  | cons c rest ih =>
    rw [List.mem_cons, not_or] at h
    rw [pieces, if_neg (Ne.symm h.1), ih h.2]

theorem pieces_append_slash {piece : Piece} (h : '/' ∉ piece) (text : List Char) :
    pieces (piece ++ '/' :: text) = piece :: pieces text := by
  induction piece with
  | nil => rw [List.nil_append, pieces, if_pos rfl]
  | cons c rest ih =>
    rw [List.mem_cons, not_or] at h
    rw [List.cons_append, pieces, if_neg (Ne.symm h.1), ih h.2]

/-- **Pieces joined are cut again** where they were joined. -/
theorem pieces_join {ps : List Piece} (hne : ps ≠ []) (hs : ∀ piece ∈ ps, '/' ∉ piece) :
    pieces (join ps) = ps := by
  induction ps with
  | nil => exact absurd rfl hne
  | cons first rest ih =>
    cases rest with
    | nil => exact pieces_of_slash_notMem (hs first (by simp))
    | cons second more =>
      rw [join, pieces_append_slash (hs first (by simp)),
        ih (by simp) fun piece hp => hs piece (by simp [hp])]
      exact fun h => absurd h (by simp)

/-- Pieces without the idle ones; the first one stays. -/
def kept : List Piece → List Piece
  | [] => []
  | first :: rest => first :: rest.filter (!isIdle ·)

theorem steps_eq_kept {path : String} (h : pieces path.toList ≠ [[]]) :
    steps path = kept (pieces path.toList) := by
  rw [steps]
  split
  · next hp => rw [hp, kept]
  · next hp => exact absurd hp h
  · next hp => rw [hp, kept]

/-- **The steps of pieces joined** are the pieces without the idle ones. -/
theorem steps_join {ps : List Piece} (hne : ps ≠ []) (hroot : ps ≠ [[]])
    (hs : ∀ piece ∈ ps, '/' ∉ piece) : steps (String.ofList (join ps)) = kept ps := by
  have hpieces : pieces (String.ofList (join ps)).toList = ps := by
    rw [String.toList_ofList]
    exact pieces_join hne hs
  rw [steps_eq_kept (by rwa [hpieces]), hpieces]

theorem head?_kept (ps : List Piece) : (kept ps).head? = ps.head? := by
  cases ps <;> rfl

theorem kept_concat {front : List Piece} {last : Piece} (hne : front ≠ []) :
    kept (front ++ [last]) = if isIdle last then kept front else kept front ++ [last] := by
  cases front with
  | nil => exact absurd rfl hne
  | cons first rest =>
    rw [List.cons_append, kept, kept, List.filter_append]
    by_cases hl : isIdle last = true <;> simp [hl]

theorem kept_concat_of_not_idle (front : List Piece) {last : Piece} (hl : isIdle last = false) :
    kept (front ++ [last]) = kept front ++ [last] := by
  by_cases hne : front = []
  · rw [hne]
    rfl
  · rw [kept_concat hne, hl]
    rfl

theorem mem_of_mem_kept {ps : List Piece} {piece : Piece} (h : piece ∈ kept ps) : piece ∈ ps := by
  cases ps with
  | nil => exact h
  | cons first rest =>
    rw [kept, List.mem_cons] at h
    rcases h with h | h
    · simp [h]
    · exact List.mem_cons_of_mem _ (List.mem_of_mem_filter h)

theorem mem_of_mem_steps {path : String} {piece : Piece} (h : piece ∈ steps path) :
    piece ∈ pieces path.toList := by
  by_cases hp : pieces path.toList = [[]]
  · rw [steps, hp] at h
    exact absurd h (by simp)
  · rw [steps_eq_kept hp] at h
    exact mem_of_mem_kept h

/-! ## Without the idle end -/

/-- What is taken off the end is idle, and something stays. -/
theorem trimmed_spec (ps : List Piece) (hne : ps ≠ []) :
    trimmed ps ≠ [] ∧ trimmed ps <:+ ps ∧ kept (trimmed ps).reverse = kept ps.reverse := by
  induction ps with
  | nil => exact absurd rfl hne
  | cons last rest ih =>
    cases rest with
    | nil => exact ⟨by simp [trimmed], List.suffix_refl _, rfl⟩
    | cons before more =>
      rw [trimmed]
      by_cases hl : isIdle last = true
      · obtain ⟨h₁, h₂, h₃⟩ := ih (by simp)
        rw [if_pos hl]
        refine ⟨h₁, h₂.trans (List.suffix_cons _ _), ?_⟩
        rw [h₃, List.reverse_cons (a := last), kept_concat (by simp), if_pos hl]
      · rw [if_neg hl]
        exact ⟨by simp, List.suffix_refl _, rfl⟩

/-- What is left ends in a step, unless it is a single piece. -/
theorem not_idle_of_trimmed {ps : List Piece} {last second : Piece} {more : List Piece}
    (h : trimmed ps = last :: second :: more) : isIdle last = false := by
  induction ps with
  | nil => exact absurd h (by simp [trimmed])
  | cons first rest ih =>
    cases rest with
    | nil => exact absurd h (by simp [trimmed])
    | cons before rest =>
      rw [trimmed] at h
      by_cases hi : isIdle first = true
      · rw [if_pos hi] at h
        exact ih h
      · rw [if_neg hi] at h
        rw [← (List.cons.inj h).1]
        exact Bool.eq_false_iff.2 hi

/-- **The steps of the parent** are those of the path without the last one. -/
theorem steps_parent {path parent : String} (h : parent? path = some parent) (hne : parent ≠ "") :
    steps parent = (steps path).dropLast := by
  obtain ⟨-, hsuffix, hkept⟩ := trimmed_spec (pieces path.toList).reverse (by simp [pieces_ne_nil])
  rw [List.reverse_reverse] at hkept
  rw [parent?, reversed] at h
  split at h
  · exact absurd h (by simp)
  · exact absurd h (by simp)
  · exact absurd (Option.some.inj h).symm hne
  · next last before _ hsingle hr =>
    rw [hr] at hkept hsuffix
    cases before with
    | nil => exact (hsingle rfl).elim
    | cons second more =>
      -- the last step goes, and then the idle pieces that stood in front of it
      have hlast := not_idle_of_trimmed hr
      -- a path of two pieces is not the empty one
      have hpath : pieces path.toList ≠ [[]] := by
        intro hp
        rw [hp] at hsuffix
        exact absurd hsuffix.length_le (by simp)
      obtain ⟨hne', hsuffix', hkept'⟩ := trimmed_spec (second :: more) (by simp)
      have hsteps : (steps path).dropLast = kept (trimmed (second :: more)).reverse := by
        rw [steps_eq_kept hpath, ← hkept, List.reverse_cons, kept_concat_of_not_idle _ hlast,
          List.dropLast_concat, hkept']
      rw [hsteps]
      split at h
      · next hroot =>
        rw [← Option.some.inj h, hroot]
        rfl
      · next hnotRoot =>
        have hslash : ∀ piece ∈ (trimmed (second :: more)).reverse, '/' ∉ piece := by
          intro piece hp
          have hm : piece ∈ last :: second :: more :=
            List.mem_cons_of_mem _ (hsuffix'.subset (List.mem_reverse.1 hp))
          have hpath : piece ∈ pieces path.toList := List.mem_reverse.1 (hsuffix.subset hm)
          exact slash_notMem_of_mem_pieces hpath
        rw [← Option.some.inj h]
        refine steps_join (by simpa using hne') (fun he => ?_) hslash
        exact hnotRoot (List.reverse_eq_iff.1 he)

end Path

/-! ## Where a path starts -/

/-- Where a path with a certain first step starts; an empty one stands for the root. -/
def startAt (home : Place) (first : Piece) : Place := if first = [] then [] else home

namespace Path

/-- The first step tells whether a path starts at the root. -/
theorem isAbsolute_iff_of_head? {path : String} {first : Piece}
    (h : (steps path).head? = some first) : isAbsolute path = true ↔ first = [] := by
  rw [steps] at h
  rw [isAbsolute]
  cases ht : path.toList with
  | nil =>
    rw [ht] at h
    exact absurd h (by simp [pieces])
  | cons c rest =>
    rw [ht, pieces] at h
    by_cases hc : c = '/'
    · -- the piece in front of the slash is empty, and it is not the only one
      rw [if_pos hc] at h
      split at h
      · exact absurd h (by simp)
      · exact absurd h (by simp)
      · next hp =>
        have hfirst : [] = first := (List.cons.inj hp).1.trans (by simpa using h)
        simp [hc, hfirst]
    · rw [if_neg hc] at h
      have hfirst : first ≠ [] := by
        cases hp : pieces rest with
        | nil => exact absurd hp (pieces_ne_nil rest)
        | cons piece more =>
          rw [hp] at h
          rw [← Option.some.inj h]
          simp
      simp [hc, hfirst]

/-- A path that is made of something has a first step. -/
theorem steps_ne_nil {path : String} (h : path ≠ "") : steps path ≠ [] := by
  have htext : path.toList ≠ [] := mt String.toList_eq_nil_iff.1 h
  rw [steps_eq_kept (pieces_ne_empty htext)]
  intro he
  have hh := head?_kept (pieces path.toList)
  rw [he] at hh
  exact pieces_ne_nil _ (List.head?_eq_none_iff.1 hh.symm)

end Path

theorem startOf_of_head? (home : Place) {path : String} {first : Piece}
    (h : (steps path).head? = some first) : startOf home path = startAt home first := by
  rw [startOf, startAt, if_congr (isAbsolute_iff_of_head? h) rfl rfl]

/-- **The parent starts where the path starts.** -/
theorem startOf_parent (home : Place) {path parent : String} (h : parent? path = some parent)
    (hne : parent ≠ "") : startOf home parent = startOf home path := by
  obtain ⟨first, hfirst⟩ := Option.ne_none_iff_exists'.1
    (mt List.head?_eq_none_iff.1 (steps_ne_nil hne))
  rw [startOf_of_head? home hfirst]
  rw [steps_parent h hne, List.head?_dropLast] at hfirst
  split at hfirst
  · rw [startOf_of_head? home hfirst]
  · exact absurd hfirst (by simp)

/-! ## Places -/

/-- Where one step leads. -/
def enter (here : Place) (step : Piece) : Place :=
  if isIdle step then here else if step = ['.', '.'] then here.dropLast else here ++ [step]

/-- The place that steps lead to from `here`. -/
def placeOf (here : Place) (steps : List Piece) : Place := steps.foldl enter here

/-- The places that steps lead through, from `here` to the one they lead to. -/
def through (here : Place) (steps : List Piece) : List Place := steps.inits.map (placeOf here)

/-- The place that a path names in a working directory. -/
def named (home : Place) (path : String) : Place := placeOf (startOf home path) (steps path)

/-- The places of the directories that a path goes through, as spelled. -/
def ancestors (home : Place) (path : String) : List Place :=
  through (startOf home path) (steps path).dropLast

/-- One file can have many paths, and where they start makes a difference. -/
example :
    let home : Place := ["home".toList, "me".toList]
    named home "/home/me/a.json" = named home "a.json" ∧
      [named home "/a.json", named home "../a.json", named home "a.json"].Nodup := by
  decide

theorem mem_through {here place : Place} {steps : List Piece} :
    place ∈ through here steps ↔ ∃ front, front <+: steps ∧ placeOf here front = place := by
  simp [through]

theorem enter_of_idle {step : Piece} (here : Place) (h : isIdle step = true) :
    enter here step = here := by
  rw [enter, if_pos h]

theorem enter_of_name {step : Piece} (here : Place) (h : isIdle step = false)
    (hback : step ≠ ['.', '.']) : enter here step = here ++ [step] := by
  rw [enter, h, if_neg Bool.false_ne_true, if_neg hback]

theorem placeOf_cons (here : Place) (step : Piece) (rest : List Piece) :
    placeOf here (step :: rest) = placeOf (enter here step) rest :=
  List.foldl_cons ..

theorem placeOf_concat (here : Place) (front : List Piece) (step : Piece) :
    placeOf here (front ++ [step]) = enter (placeOf here front) step :=
  List.foldl_concat enter here step front

theorem placeOf_filter (here : Place) (steps : List Piece) :
    placeOf here (steps.filter (!isIdle ·)) = placeOf here steps := by
  induction steps generalizing here with
  | nil => rfl
  | cons step rest ih =>
    by_cases hi : isIdle step = true
    · rw [List.filter_cons_of_neg (by simp [hi]), ih, placeOf_cons, enter_of_idle here hi]
    · rw [List.filter_cons_of_pos (by simp [hi]), placeOf_cons, ih, placeOf_cons]

theorem placeOf_kept (here : Place) (ps : List Piece) :
    placeOf here (kept ps) = placeOf here ps := by
  cases ps with
  | nil => rfl
  | cons first rest => rw [kept, placeOf_cons, placeOf_filter, placeOf_cons]

/-- **A path names the place that its pieces lead to.** -/
theorem named_eq (home : Place) (path : String) :
    named home path = placeOf (startOf home path) (pieces path.toList) := by
  rw [named]
  by_cases hp : pieces path.toList = [[]]
  · rw [steps, hp]
    rfl
  · rw [steps_eq_kept hp, placeOf_kept]

/-- Idle pieces add no place on the way. -/
theorem through_kept_subset (here : Place) (ps : List Piece) :
    through here (kept ps) ⊆ through here ps := by
  intro place h
  obtain ⟨front, hf, rfl⟩ := mem_through.1 h
  refine mem_through.2 ?_
  cases ps with
  | nil => exact ⟨front, hf, rfl⟩
  | cons first rest =>
    cases front with
    | nil => exact ⟨[], List.nil_prefix, rfl⟩
    | cons step more =>
      obtain ⟨rfl, hm⟩ := List.cons_prefix_cons.1 hf
      obtain ⟨between, hb, rfl⟩ := List.prefix_filter_iff.1 hm
      refine ⟨step :: between, List.cons_prefix_cons.2 ⟨rfl, hb⟩, ?_⟩
      rw [placeOf_cons, placeOf_cons, placeOf_filter]

theorem ancestors_subset (home : Place) {path : String} {before : List Piece} {last : Piece}
    (h : pieces path.toList = before ++ [last]) (hl : isIdle last = false) :
    ancestors home path ⊆ through (startOf home path) before := by
  have hpath : pieces path.toList ≠ [[]] := by
    intro hp
    have hlast : last = [] := by simpa using congrArg List.getLast? (h.symm.trans hp)
    rw [hlast] at hl
    exact absurd hl (by decide)
  rw [ancestors, steps_eq_kept hpath, h, kept_concat_of_not_idle before hl, List.dropLast_concat]
  exact through_kept_subset _ before

/-- **The path of reversed steps** starts where the outermost of them says and leads where they
lead. -/
theorem named_pathOf (home : Place) {steps : List Piece} {first : Piece}
    (hfirst : steps.getLast? = some first) (hs : ∀ piece ∈ steps, '/' ∉ piece) :
    named home (Tree.pathOf steps) = placeOf (startAt home first) steps.reverse := by
  by_cases hroot : steps = [[]]
  · rw [hroot] at hfirst ⊢
    rw [← Option.some.inj hfirst]
    rfl
  · have hne : steps ≠ [] := by
      rintro rfl
      exact absurd hfirst (by simp)
    have hsteps : Path.steps (Tree.pathOf steps) = kept steps.reverse := by
      rw [Tree.pathOf]
      · exact steps_join (by simpa using hne) (by simpa using hroot) (by simpa using hs)
      · exact hroot
    have hstart : startOf home (Tree.pathOf steps) = startAt home first := by
      refine startOf_of_head? home ?_
      rw [hsteps, head?_kept, List.head?_reverse, hfirst]
    rw [named, hstart, hsteps, placeOf_kept]

end Sweep.Files
