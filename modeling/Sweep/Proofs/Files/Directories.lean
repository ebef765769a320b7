import Sweep.Proofs.Except
import Sweep.Proofs.Files.Steps

/-!
# What writing and making directories change

Two operations change a tree. Writing puts one file at the place that the path names; it succeeds
only if every place on the way is a directory by then (`write_eq_ok`). Making directories puts
directories where nothing was, and only at places that the path goes through
(`gains_makeDirectories`), also when it fails.

The second is said with `Gains`, which composes: what many steps gain is what each one gains.
-/

set_option autoImplicit false

namespace Sweep.Files

open Sweep.Files.Path

namespace Tree

/-! ## Looking up what was put -/

theorem find?_putEntry (entries : List (Place × Entry)) (place other : Place) (entry : Entry) :
    ((putEntry place entry entries).find? (·.1 == other)).map (·.2) =
      if other = place then some entry else (entries.find? (·.1 == other)).map (·.2) := by
  induction entries with
  | nil =>
    by_cases ho : other = place
    · simp [putEntry, ho]
    · simp [putEntry, ho, Ne.symm ho]
  | cons first rest ih =>
    obtain ⟨at_, old⟩ := first
    rw [putEntry]
    by_cases hp : at_ = place
    · rw [if_pos hp]
      by_cases ho : other = place
      · simp [ho]
      · simp [hp, ho, Ne.symm ho]
    · rw [if_neg hp]
      by_cases ha : at_ = other
      · simp [← ha, hp]
      · rw [List.find?_cons_of_neg (by simpa using ha),
          List.find?_cons_of_neg (by simpa using ha), ih]

@[simp] theorem home_put (tree : Tree) (place : Place) (entry : Entry) :
    (tree.put place entry).home = tree.home := rfl

theorem find?_of_isPrefix {tree : Tree} {place : Place} (h : place <+: tree.home) :
    tree.find? place = some .directory := by
  rw [find?, if_pos h]

/-- **What was put is found** where it was put, and all else as before. Nothing is put in the place
of a directory. -/
theorem find?_put {tree : Tree} {place : Place} (hnone : tree.find? place ≠ some .directory)
    (entry : Entry) (other : Place) :
    (tree.put place entry).find? other =
      if other = place then some entry else tree.find? other := by
  have hplace : ¬place <+: tree.home := fun hp => hnone (find?_of_isPrefix hp)
  rw [find?, find?, home_put]
  by_cases ho : other <+: tree.home
  · have hne : other ≠ place := by
      rintro rfl
      exact hplace ho
    rw [if_pos ho, if_pos ho, if_neg hne]
  · rw [if_neg ho, if_neg ho]
    exact find?_putEntry tree.entries place other entry

theorem checkDirectory_eq_ok_iff {tree : Tree} {place : Place} :
    tree.checkDirectory place = .ok () ↔ tree.find? place = some .directory := by
  rw [checkDirectory]
  split
  · next h => simp [h]
  · next h => simp [h]
  · next h => simp [h]

/-- One step starts from a directory, and enters nothing with too long a name. -/
theorem follow_cons_eq_ok_iff {tree : Tree} {step : Piece} {rest : List Piece}
    {here there : Place} :
    tree.follow here (step :: rest) = .ok there ↔
      tree.find? here = some .directory ∧
      (isIdle step ∨ step = ['.', '.'] ∨ byteCount step ≤ nameLimit) ∧
        tree.follow (enter here step) rest = .ok there := by
  rw [follow, Except.bind_eq_ok_iff, ← checkDirectory_eq_ok_iff, enter]
  cases tree.checkDirectory here with
  | error why => simp
  | ok done =>
    by_cases hi : isIdle step = true
    · simp [hi]
    · by_cases hback : step = ['.', '.']
      · simp [hback, isIdle]
      · by_cases hlong : nameLimit < byteCount step
        · simp [hi, hback, hlong, Nat.not_le.2 hlong]
        · simp [hi, hback, hlong, Nat.not_lt.1 hlong]

/-- **Steps that could be followed** lead to the place that they lead to in any tree. -/
theorem placeOf_of_follow {tree : Tree} {steps : List Piece} {here there : Place}
    (h : tree.follow here steps = .ok there) : placeOf here steps = there := by
  induction steps generalizing here with
  | nil =>
    rw [follow] at h
    exact Except.ok.inj h
  | cons step rest ih => exact ih (follow_cons_eq_ok_iff.1 h).2.2

/-- Steps that could be followed to a directory lead through directories. -/
theorem directories_of_follow {tree : Tree} {steps : List Piece} {here there : Place}
    (h : tree.follow here steps = .ok there) (hd : tree.checkDirectory there = .ok ()) :
    ∀ front, front <+: steps → tree.find? (placeOf here front) = some .directory := by
  induction steps generalizing here with
  | nil =>
    rw [follow] at h
    cases h
    intro front hf
    rw [List.prefix_nil.1 hf]
    exact checkDirectory_eq_ok_iff.1 hd
  | cons step rest ih =>
    obtain ⟨hhere, -, hnext⟩ := follow_cons_eq_ok_iff.1 h
    intro front hf
    cases front with
    | nil => exact hhere
    | cons first more =>
      obtain ⟨rfl, hm⟩ := List.cons_prefix_cons.1 hf
      exact ih hnext more hm

/-- More directories are in nobody's way. -/
theorem follow_of_directories {tree tree' : Tree}
    (hd : ∀ place, tree.find? place = some .directory → tree'.find? place = some .directory)
    {steps : List Piece} {here there : Place} (h : tree.follow here steps = .ok there) :
    tree'.follow here steps = .ok there := by
  induction steps generalizing here with
  | nil => exact h
  | cons step rest ih =>
    obtain ⟨hhere, hname, hnext⟩ := follow_cons_eq_ok_iff.1 h
    exact follow_cons_eq_ok_iff.2 ⟨hd here hhere, hname, ih hnext⟩

/-- **A file that could be read can be read where it still is**, as long as the directories are. -/
theorem read_of_kept {tree tree' : Tree} {path text : String} (hhome : tree'.home = tree.home)
    (hd : ∀ place, tree.find? place = some .directory → tree'.find? place = some .directory)
    (hf : tree.find? (named tree.home path) = some (.file text) →
      tree'.find? (named tree.home path) = some (.file text))
    (h : tree.read path = .ok text) : tree'.read path = .ok text := by
  rw [read, locate] at h ⊢
  obtain ⟨entry, hlocate, h⟩ := Except.bind_eq_ok_iff.1 h
  obtain ⟨_, hpath, hlocate⟩ := Except.bind_eq_ok_iff.1 hlocate
  obtain ⟨place, hplace, hlocate⟩ := Except.bind_eq_ok_iff.1 hlocate
  have hnamed : named tree.home path = place := by
    rw [named_eq]
    exact placeOf_of_follow hplace
  rw [hnamed] at hf
  cases entry with
  | directory => exact absurd h (by simp)
  | file content =>
    cases h
    have hheld : tree.find? place = some (.file text) := by
      cases hfind : tree.find? place with
      | none =>
        rw [hfind] at hlocate
        exact absurd hlocate (by simp)
      | some other =>
        rw [hfind] at hlocate
        cases hlocate
        rfl
    simp only [hpath, hhome, follow_of_directories hd hplace, hf hheld, bind, Except.bind]

/-! ## The last step -/

theorem split_of_dropWhile {reversed : List Piece} {last : Piece} {front : List Piece}
    (h : reversed.dropWhile (· == []) = last :: front) :
    ∃ empties, reversed = empties ++ last :: front ∧ (∀ piece ∈ empties, piece = []) ∧ last ≠ [] ∧
      ((reversed.head? == some []) = false → empties = []) := by
  induction reversed with
  | nil => exact absurd h (by simp)
  | cons first rest ih =>
    by_cases hf : first = []
    · rw [List.dropWhile_cons_of_pos (by simp [hf])] at h
      obtain ⟨empties, hr, hempty, hlast, -⟩ := ih h
      refine ⟨first :: empties, by rw [hr, List.cons_append], ?_, hlast, fun hslash => ?_⟩
      · exact List.forall_mem_cons.2 ⟨hf, hempty⟩
      · exact absurd hslash (by simp [hf])
    · rw [List.dropWhile_cons_of_neg (by simpa using hf)] at h
      obtain ⟨rfl, rfl⟩ := List.cons.inj h
      exact ⟨[], rfl, by simp, hf, fun _ => rfl⟩

theorem pieces_of_lastStep {path : String} {last : Piece} {before : List Piece} {slash : Bool}
    (h : lastStep path = some (last, before, slash)) :
    ∃ empties, pieces path.toList = before ++ last :: empties ∧
      (∀ piece ∈ empties, piece = []) ∧ last ≠ [] ∧ (slash = false → empties = []) := by
  simp only [lastStep] at h
  split at h
  · exact absurd h (by simp)
  · next found front hd =>
    cases h
    obtain ⟨empties, hr, hempty, hlast, hslash⟩ := split_of_dropWhile hd
    refine ⟨empties.reverse, ?_, by simpa using hempty, hlast,
      fun h => by rw [hslash h, List.reverse_nil]⟩
    rw [← List.reverse_reverse (pieces path.toList), hr]
    simp

theorem placeOf_append_empties (here : Place) (steps : List Piece) {empties : List Piece}
    (h : ∀ piece ∈ empties, piece = []) :
    placeOf here (steps ++ empties) = placeOf here steps := by
  induction empties using List.reverseRecOn with
  | nil => rw [List.append_nil]
  | append_singleton front piece ih =>
    have hp : piece = [] := h piece (by simp)
    rw [← List.append_assoc, placeOf_concat, hp, enter_of_idle _ rfl]
    exact ih fun piece hm => h piece (by simp [hm])

/-- A last step that is a name leads from where the steps before it lead to the place that the path
names. -/
theorem named_of_lastStep {tree : Tree} {path : String} {last : Piece} {before : List Piece}
    {slash : Bool} {directory : Place} (h : lastStep path = some (last, before, slash))
    (hfollow : tree.follow (startOf tree.home path) before = .ok directory) (hdot : last ≠ ['.'])
    (hback : last ≠ ['.', '.']) : directory ++ [last] = named tree.home path := by
  obtain ⟨empties, hp, hempty, hne, -⟩ := pieces_of_lastStep h
  have hidle : isIdle last = false := by simp [isIdle, hne, hdot]
  rw [named_eq, hp, List.append_cons before last empties, placeOf_append_empties _ _ hempty,
    placeOf_concat, enter_of_name _ hidle hback, placeOf_of_follow hfollow]

/-! ## Writing -/

/-- **What a write does**: on the way there are only directories, at the end there is none, and
there the file is put. -/
theorem write_eq_ok {tree tree' : Tree} {path content : String}
    (h : tree.write path content = .ok tree') :
    (∀ place ∈ ancestors tree.home path, tree.find? place = some .directory) ∧
      tree.find? (named tree.home path) ≠ some .directory ∧
      tree' = tree.put (named tree.home path) (.file content) := by
  rw [write] at h
  obtain ⟨_, -, h⟩ := Except.bind_eq_ok_iff.1 h
  split at h
  · exact absurd h (by simp)
  · next last before slash hl =>
    obtain ⟨directory, hfollow, h⟩ := Except.bind_eq_ok_iff.1 h
    obtain ⟨_, hcheck, h⟩ := Except.bind_eq_ok_iff.1 h
    have hway := directories_of_follow hfollow hcheck
    split at h
    · exact absurd h (by simp)
    · next hname =>
      simp only [Bool.or_eq_true, decide_eq_true_eq, not_or, Bool.not_eq_true] at hname
      obtain ⟨⟨hslash, hdot⟩, hback⟩ := hname
      have hnamed := named_of_lastStep hl hfollow hdot hback
      rw [hnamed] at h
      split at h
      · exact absurd h (by simp)
      · split at h
        · exact absurd h (by simp)
        · next hnone =>
          cases h
          refine ⟨fun place hp => ?_, hnone, rfl⟩
          obtain ⟨empties, hpieces, -, hne, hempties⟩ := pieces_of_lastStep hl
          rw [hempties hslash] at hpieces
          have hidle : isIdle last = false := by simp [isIdle, hne, hdot]
          obtain ⟨front, hf, rfl⟩ := mem_through.1 (ancestors_subset tree.home hpieces hidle hp)
          exact hway front hf

/-! ## Making directories -/

/-- A tree gains directories, at certain places where nothing was. -/
structure Gains (places : List Place) (old new : Tree) : Prop where
  home : new.home = old.home
  found : ∀ place, new.find? place = old.find? place ∨
    place ∈ places ∧ old.find? place = none ∧ new.find? place = some .directory

theorem Gains.refl (places : List Place) (tree : Tree) : Gains places tree tree where
  home := rfl
  found := fun _ => .inl rfl

theorem Gains.trans {places : List Place} {old mid new : Tree} (h₁ : Gains places old mid)
    (h₂ : Gains places mid new) : Gains places old new where
  home := h₂.home.trans h₁.home
  found := by
    intro place
    rcases h₂.found place with he | ⟨hp, hn, hd⟩
    · rw [he]
      exact h₁.found place
    · rcases h₁.found place with he | ⟨-, -, hdir⟩
      · exact .inr ⟨hp, by rw [← he, hn], hd⟩
      · rw [hn] at hdir
        exact absurd hdir (by simp)

theorem Gains.mono {places more : List Place} {old new : Tree} (h : Gains places old new)
    (hs : places ⊆ more) : Gains more old new where
  home := h.home
  found := by
    intro place
    rcases h.found place with he | ⟨hp, hn, hd⟩
    · exact .inl he
    · exact .inr ⟨hs hp, hn, hd⟩

theorem Gains.file_iff {places : List Place} {old new : Tree} (h : Gains places old new)
    (place : Place) (content : String) :
    new.find? place = some (.file content) ↔ old.find? place = some (.file content) := by
  rcases h.found place with he | ⟨-, hn, hd⟩
  · rw [he]
  · simp [hn, hd]

theorem Gains.directory_iff {places : List Place} {old new : Tree} (h : Gains places old new)
    (place : Place) :
    new.find? place = some .directory ↔
      old.find? place = some .directory ∨ place ∈ places ∧ new.find? place = some .directory := by
  rcases h.found place with he | ⟨hp, -, hd⟩
  · simp +contextual [he]
  · simp [hp, hd]

theorem gains_put {tree : Tree} {place : Place} (h : tree.find? place = none) :
    Gains [place] tree (tree.put place .directory) where
  home := rfl
  found := by
    intro other
    rw [find?_put (by simp [h])]
    by_cases ho : other = place
    · right
      rw [if_pos ho, ho]
      exact ⟨by simp, h, rfl⟩
    · left
      rw [if_neg ho]

theorem gains_makeDirectory {tree tree' : Tree} {path : String}
    (h : tree.makeDirectory path = .ok tree') : Gains [named tree.home path] tree tree' := by
  rw [makeDirectory] at h
  obtain ⟨_, -, h⟩ := Except.bind_eq_ok_iff.1 h
  split at h
  · exact absurd h (by simp)
  · next last before slash hl =>
    obtain ⟨directory, hfollow, h⟩ := Except.bind_eq_ok_iff.1 h
    obtain ⟨_, -, h⟩ := Except.bind_eq_ok_iff.1 h
    split at h
    · exact absurd h (by simp)
    · next hname =>
      simp only [Bool.or_eq_true, decide_eq_true_eq, not_or] at hname
      rw [named_of_lastStep hl hfollow hname.1 hname.2] at h
      split at h
      · exact absurd h (by simp)
      · split at h
        · exact absurd h (by simp)
        · next hnone =>
          cases h
          exact gains_put hnone

theorem gains_ensureDirectory {tree tree' : Tree} {path : String}
    (h : tree.ensureDirectory path = .ok tree') : Gains [named tree.home path] tree tree' := by
  rw [ensureDirectory] at h
  split at h
  · next hm =>
    cases h
    exact gains_makeDirectory hm
  · split at h
    · cases h
      exact .refl _ _
    · exact absurd h (by simp)

/-- **Making directories, step by step**: what is gained lies on the way of the steps, also if it
fails half way. The outermost step says where they start, and it is the same for all of them. -/
theorem gains_ensureSteps (tree : Tree) {here : Place} {steps : List Piece}
    (hhere : ∀ first, steps.getLast? = some first → startAt tree.home first = here)
    (hs : ∀ piece ∈ steps, '/' ∉ piece) :
    Gains (through here steps.reverse) tree (tree.ensureSteps steps).2 := by
  induction steps with
  | nil => exact .refl _ _
  | cons last before ih =>
    have hend : [named tree.home (pathOf (last :: before))] ⊆
        through here (last :: before).reverse := by
      have hfirst := List.getLast?_eq_getLast_of_ne_nil (l := last :: before) (by simp)
      rw [named_pathOf tree.home hfirst hs, hhere _ hfirst]
      exact List.cons_subset.2 ⟨mem_through.2 ⟨_, List.prefix_refl _, rfl⟩, List.nil_subset _⟩
    have hfront : through here before.reverse ⊆ through here (last :: before).reverse := by
      intro place hp
      obtain ⟨front, hf, rfl⟩ := mem_through.1 hp
      rw [List.reverse_cons]
      exact mem_through.2 ⟨front, hf.trans (List.prefix_append _ _), rfl⟩
    have hbefore :
        Gains (through here (last :: before).reverse) tree (tree.ensureSteps before).2 := by
      refine (ih (fun first hf => hhere first ?_) fun piece hp =>
        hs piece (by simp [hp])).mono hfront
      simp [List.getLast?_cons, hf]
    rw [ensureSteps]
    split
    · next hm => exact (gains_ensureDirectory hm).mono hend
    · -- the directory that it lies in is missing, so that one is made first
      split
      · next he =>
        rw [he] at hbefore
        exact hbefore
      · next he =>
        rw [he] at hbefore
        split
        · next hm =>
          have hlast := gains_makeDirectory hm
          rw [hbefore.home] at hlast
          exact hbefore.trans (hlast.mono hend)
        · exact hbefore
    · exact .refl _ _

theorem gains_makeDirectories (tree : Tree) {path parent : String} (h : parent? path = some parent)
    (hne : parent ≠ "") :
    Gains (ancestors tree.home path) tree (tree.makeDirectories parent).2 := by
  have hs : ∀ piece ∈ (steps parent).reverse, '/' ∉ piece := fun piece hp =>
    slash_notMem_of_mem_pieces (mem_of_mem_steps (List.mem_reverse.1 hp))
  have hhere : ∀ first, (steps parent).reverse.getLast? = some first →
      startAt tree.home first = startOf tree.home path := by
    intro first hf
    rw [List.getLast?_reverse] at hf
    rw [← startOf_parent tree.home h hne, startOf_of_head? tree.home hf]
  have hg := gains_ensureSteps tree hhere hs
  rw [List.reverse_reverse] at hg
  rw [ancestors, ← steps_parent h hne]
  exact hg

/-- A name that two dots lead back from is on the way as well. -/
example : (empty.makeDirectories "a/../b").2.directories = ["a", "b"] := by decide

end Tree

end Sweep.Files
