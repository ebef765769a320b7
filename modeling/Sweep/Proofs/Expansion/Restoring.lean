import Sweep.Expansion
import Sweep.Proofs.Document.Fill

/-!
# The walk undoes what it does

A level of the walk takes arrays out, writes rows in their places, lets the rest of the walk go on,
and puts the arrays back. This file settles that a level leaves nothing behind, whatever ends it.

The argument is local to a level. Taking columns can only succeed at keys that are pairwise
**apart** and hold arrays (`Took`), because an array that was taken is a null to whoever comes next.
From there on the document of the level is always the original one with one write per column
(`Within`): filling a row moves from one such document to another, the walk below gives its document
back, and putting the arrays back ends at the original.

> `withColumns_eq`: a level with its columns taken is one visit per row, each on the original
> document with the row written into it, and the original document in the end.

The sink is asked for one thing only: that it hands each document back as it was (`Sink.Preserves`).
-/

set_option autoImplicit false

namespace Sweep

variable {m : Type → Type} [Monad m]

/-! ## Sinks that give documents back -/

/-- What a sink says of a document. -/
def Sink.outcome (sink : Sink m) (doc : Document) : m Outcome := Prod.fst <$> sink doc

/-- A sink that hands every document back as it was. -/
def Sink.Preserves (sink : Sink m) :
    Prop := ∀ doc, sink doc = (fun outcome => (outcome, doc)) <$> sink.outcome doc

theorem Sink.outcome_eq [LawfulMonad m] {sink : Sink m} {doc : Document} {x : m Outcome}
    (h : sink doc = (fun outcome => (outcome, doc)) <$> x) : sink.outcome doc = x := by
  rw [Sink.outcome, h, Functor.map_map]
  exact id_map' x

theorem Sink.preserves_iff {σ : Type} (sink : Sink (StateM σ)) :
    sink.Preserves ↔ ∀ doc s, (sink doc s).1.2 = doc := by
  constructor
  · intro h doc s
    rw [h doc]
    rfl
  · intro h doc
    funext s
    exact Prod.ext (Prod.ext rfl (h doc s)) rfl

namespace Expansion

/-- Visit items one after the other; the first fault ends it. -/
def untilFault {α : Type} (visit : α → m Outcome) : List α → m Outcome
  | [] => pure (.ok ())
  | first :: rest => do
    match ← visit first with
    | .error fault => pure (.error fault)
    | .ok () => untilFault visit rest

theorem untilFault_congr {α : Type} {f g : α → m Outcome} {items : List α}
    (h : ∀ item ∈ items, f item = g item) :
    untilFault f items = untilFault g items := by
  induction items with
  | nil => rfl
  | cons first rest ih =>
    obtain ⟨hf, hr⟩ := List.forall_mem_cons.1 h
    rw [untilFault, untilFault, hf, ih hr]

theorem untilFault_append [LawfulMonad m] {α : Type} (visit : α → m Outcome)
    (first second : List α) :
    untilFault visit (first ++ second) = (do
      match ← untilFault visit first with
      | .error fault => pure (.error fault)
      | .ok () => untilFault visit second) := by
  induction first with
  | nil => rw [List.nil_append, untilFault, pure_bind]
  | cons item rest ih =>
    rw [List.cons_append, untilFault, untilFault, bind_assoc]
    refine bind_congr fun outcome => ?_
    cases outcome with
    | error fault => rw [pure_bind]
    | ok done => exact ih

theorem untilFault_map {α β : Type} (f : α → β) (visit : β → m Outcome) (items : List α) :
    untilFault visit (items.map f) = untilFault (visit ∘ f) items := by
  induction items with
  | nil => rfl
  | cons first rest ih =>
    rw [List.map_cons, untilFault, untilFault, ih]
    rfl

end Expansion

/-! ## Writing at keys that are there -/

/-- Every one of some keys is a place in a document. -/
def Document.Holds (doc : Document) (keys : List Key) :
    Prop := ∀ key ∈ keys, ∃ held, doc.get key = .ok held

theorem Document.Holds.put {doc : Document} {key : Key} {keys : List Key} (h : doc.Holds keys)
    (ha : ∀ other ∈ keys, key.Apart other) (new : Value) :
    (doc.put key new).Holds keys := fun other ho => by
  rw [Document.get_put_of_apart (ha other ho)]
  exact h other ho

theorem Document.Holds.fill {doc : Document} {writes : List (Key × Value)}
    (h : doc.Holds (writes.map Prod.fst)) (hp : (writes.map Prod.fst).Pairwise Key.Apart) :
    (doc.fill writes).Holds (writes.map Prod.fst) := by
  intro key hk
  obtain ⟨held, hh⟩ := h key hk
  obtain ⟨write, hw, rfl⟩ := List.mem_map.1 hk
  exact ⟨write.2, Document.get_fill_of_mem hp hw hh⟩

namespace Expansion

theorem putBack_eq {writes : List (Key × Value)} {doc : Document}
    (hp : (writes.map Prod.fst).Pairwise Key.Apart) (hh : doc.Holds (writes.map Prod.fst)) :
    putBack writes doc = (.ok (), doc.fill writes) := by
  induction writes generalizing doc with
  | nil => rfl
  | cons write rest ih =>
    rw [List.map_cons, List.pairwise_cons] at hp
    obtain ⟨held, hk⟩ := hh write.1 List.mem_cons_self
    have hr : doc.Holds (rest.map Prod.fst) := fun key hm => hh key (List.mem_cons_of_mem _ hm)
    rw [putBack, Document.set_of_get hk]
    exact ih hp.2 (hr.put hp.1 _)

/-- The writes that put a row of some columns in place. -/
def rowWrites (row : Nat) (columns : List Column) : List (Key × Value) :=
  columns.map fun column => (column.key, column.items[row]?.getD .null)

theorem keys_rowWrites (row : Nat) (columns : List Column) :
    (rowWrites row columns).map Prod.fst = columns.map Column.key := by
  simp [rowWrites]

theorem fillRow_eq (row : Nat) {columns : List Column} {doc : Document}
    (hp : (columns.map Column.key).Pairwise Key.Apart) (hh : doc.Holds (columns.map Column.key)) :
    fillRow row columns doc = (.ok (), doc.fill (rowWrites row columns)) := by
  induction columns generalizing doc with
  | nil => rfl
  | cons column rest ih =>
    rw [List.map_cons, List.pairwise_cons] at hp
    obtain ⟨held, hk⟩ := hh column.key List.mem_cons_self
    have hr : doc.Holds (rest.map Column.key) := fun key hm => hh key (List.mem_cons_of_mem _ hm)
    rw [fillRow, Document.set_of_get hk]
    exact ih hp.2 (hr.put hp.1 _)

/-! ## Taking columns -/

/-- The writes that put the arrays of columns back. -/
def backWrites (columns : List Column) : List (Key × Value) :=
  columns.reverse.map fun column => (column.key, .list column.items)

theorem backWrites_cons (column : Column) (rest : List Column) :
    backWrites (column :: rest) = backWrites rest ++ [(column.key, .list column.items)] := by
  simp [backWrites]

theorem putBack_append {first second : List (Key × Value)} {doc between : Document}
    (h : putBack first doc = (.ok (), between)) :
    putBack (first ++ second) doc = putBack second between := by
  induction first generalizing doc with
  | nil =>
    cases h
    rfl
  | cons write rest ih =>
    rw [putBack] at h
    rw [List.cons_append, putBack]
    cases hs : doc.set write.1 write.2 with
    | error fault =>
      rw [hs] at h
      exact absurd h (by simp)
    | ok next =>
      rw [hs] at h
      exact ih h

/-- **Columns that were taken can be put back**, also when the taking stopped half way. Going back
in the reverse order, each array meets the document it was taken from. -/
theorem putBack_takeColumns (keys : List Key) (doc : Document) :
    putBack (backWrites (takeColumns keys doc).columns) (takeColumns keys doc).document =
      (.ok (), doc) := by
  induction keys generalizing doc with
  | nil => rfl
  | cons key rest ih =>
    rw [takeColumns, Document.replace_eq]
    cases hk : doc.get key with
    | error fault => rfl
    | ok held =>
      have hs := Document.set_put_of_get hk .null
      cases held with
      | list items =>
        simp only [Except.map, backWrites_cons]
        -- the later columns go back first, which leaves only the null at `key`
        rw [putBack_append (ih _), putBack, hs]
        rfl
      | _ =>
        simp only [Except.map, hs]
        rfl

/-- What it takes to take columns: their keys are pairwise apart and hold the arrays, which are
nulls afterwards. -/
structure Took (doc : Document) (keys : List Key) (columns : List Column)
    (document : Document) : Prop where
  keys_eq : columns.map Column.key = keys
  held : ∀ column ∈ columns, doc.get column.key = .ok (.list column.items)
  apart : keys.Pairwise Key.Apart
  document_eq : document = doc.fill (columns.map fun column => (column.key, .null))

theorem took_of_ok {keys : List Key} {doc : Document}
    (h : (takeColumns keys doc).outcome = .ok ()) :
    Took doc keys (takeColumns keys doc).columns (takeColumns keys doc).document := by
  induction keys generalizing doc with
  | nil => exact ⟨rfl, by simp [takeColumns], List.Pairwise.nil, rfl⟩
  | cons key rest ih =>
    rw [takeColumns, Document.replace_eq] at h ⊢
    cases hk : doc.get key with
    | error fault =>
      rw [hk] at h
      exact absurd h (by simp [Except.map])
    | ok held =>
      rw [hk] at h
      have hn : (doc.put key .null).get key = .ok .null := Document.get_put_self hk .null
      cases held with
      | list items =>
        obtain ⟨hkeys, hheld, hapart, hdoc⟩ := ih h
        -- a key that comes later holds an array where `key` holds a null, so it is another one
        have ha : ∀ column ∈ (takeColumns rest (doc.put key .null)).columns,
            key.Apart column.key := by
          intro column hc
          refine Document.apart_of_get hn (by simp [Value.IsLeaf]) (hheld column hc)
            (by simp [Value.IsLeaf]) ?_
          rintro rfl
          rw [hheld column hc] at hn
          exact absurd hn (by simp)
        refine ⟨congrArg (key :: ·) hkeys, ?_, ?_, hdoc⟩
        · intro column hc
          rcases List.mem_cons.1 hc with rfl | hr
          · exact hk
          · rw [← Document.get_put_of_apart (ha column hr)]
            exact hheld column hr
        · refine List.pairwise_cons.2 ⟨fun other ho => ?_, hapart⟩
          rw [← hkeys] at ho
          obtain ⟨column, hc, rfl⟩ := List.mem_map.1 ho
          exact ha column hc
      | _ =>
        simp only [Except.map] at h
        rw [Document.set_of_get hn] at h
        exact absurd h (by simp)

/-! ## A level -/

/-- The documents that a level goes through: the original one, with one write at each of its
columns. -/
def Within (doc : Document) (columns : List Column) (current : Document) : Prop :=
  ∃ writes : List (Key × Value), writes.map Prod.fst = columns.map Column.key ∧
    current = doc.fill writes

theorem Took.within {doc : Document} {keys : List Key} {columns : List Column} {document : Document}
    (h : Took doc keys columns document) : Within doc columns document :=
  ⟨_, by simp, h.document_eq⟩

/-- Outcome and document once the arrays of columns are put back. -/
def close (columns : List Column) (last : Outcome × Document) : Outcome × Document :=
  let (restored, doc) := putBack (backWrites columns) last.2
  (both last.1 restored, doc)

section Level

variable {doc : Document} {keys : List Key} {columns : List Column} {document current : Document}

theorem Took.holds (h : Took doc keys columns document) : doc.Holds (columns.map Column.key) := by
  intro key hk
  obtain ⟨column, hc, rfl⟩ := List.mem_map.1 hk
  exact ⟨_, h.held column hc⟩

theorem Took.apart_columns (h : Took doc keys columns document) :
    (columns.map Column.key).Pairwise Key.Apart := by
  rw [h.keys_eq]
  exact h.apart

theorem Took.holds_within (h : Took doc keys columns document) (hw : Within doc columns current) :
    current.Holds (columns.map Column.key) := by
  obtain ⟨writes, hk, rfl⟩ := hw
  rw [← hk]
  exact Document.Holds.fill (by rw [hk]; exact h.holds) (by rw [hk]; exact h.apart_columns)

theorem Took.fillRow_within (h : Took doc keys columns document) (hw : Within doc columns current)
    (row : Nat) :
    fillRow row columns current = (.ok (), doc.fill (rowWrites row columns)) := by
  rw [fillRow_eq row h.apart_columns (h.holds_within hw)]
  obtain ⟨writes, hk, rfl⟩ := hw
  rw [Document.fill_fill (by rw [hk, keys_rowWrites]) (by rw [hk]; exact h.apart_columns)]

theorem Took.close_within (h : Took doc keys columns document) (hw : Within doc columns current)
    (outcome : Outcome) : close columns (outcome, current) = (outcome, doc) := by
  have hk : (backWrites columns).map Prod.fst = (columns.map Column.key).reverse := by
    simp [backWrites]
  have hp : ((backWrites columns).map Prod.fst).Pairwise Key.Apart := by
    rw [hk, List.pairwise_reverse]
    exact h.apart_columns.imp Key.Apart.symm
  have hh : current.Holds ((backWrites columns).map Prod.fst) := fun key hm =>
    h.holds_within hw key (by rw [hk] at hm; exact List.mem_reverse.1 hm)
  -- what the level wrote is written over, and what is then written was there to begin with
  have hself : current.fill (backWrites columns) = doc := by
    obtain ⟨writes, hkw, rfl⟩ := hw
    have hforth :
        (backWrites columns).Perm (columns.map fun column => (column.key, .list column.items)) :=
      (List.reverse_perm columns).map _
    rw [Document.fill_perm hforth hp,
      Document.fill_fill (by rw [hkw]; simp) (by rw [hkw]; exact h.apart_columns)]
    refine Document.fill_self fun write hm => ?_
    obtain ⟨column, hc, rfl⟩ := List.mem_map.1 hm
    exact h.held column hc
  rw [close, putBack_eq hp hh, hself]
  cases outcome <;> rfl

variable [LawfulMonad m]

theorem Took.eachRow_close (h : Took doc keys columns document) {inner : Sink m}
    (hi : inner.Preserves) (rows : List Nat) (hw : Within doc columns current) :
    close columns <$> eachRow inner columns rows current =
      (fun outcome => (outcome, doc)) <$>
        untilFault (fun row => inner.outcome (doc.fill (rowWrites row columns))) rows := by
  -- the invariant is `Within`: a row starts wherever the row before it stopped
  induction rows generalizing current with
  | nil => rw [eachRow, untilFault, map_pure, map_pure, h.close_within hw]
  | cons row rest ih =>
    have hw' : Within doc columns (doc.fill (rowWrites row columns)) :=
      ⟨_, keys_rowWrites row columns, rfl⟩
    rw [eachRow, h.fillRow_within hw]
    simp only [hi _, untilFault, map_bind, bind_map_left]
    refine bind_congr fun outcome => ?_
    cases outcome with
    | error fault => rw [map_pure, map_pure, h.close_within hw']
    | ok done => exact ih hw'

end Level

theorem withColumns_eq_close [LawfulMonad m] (inner : Sink m) (length : Nat) (taken : Taken) :
    withColumns inner length taken =
      close taken.columns <$> (match taken.outcome with
        | .ok () => eachRow inner taken.columns (List.range length) taken.document
        | .error fault => pure (.error fault, taken.document)) := by
  rw [withColumns, map_eq_pure_bind]
  cases taken.outcome <;> rfl

/-- **A level is one visit per row**, each on the original document with the row written into it. -/
theorem withColumns_eq [LawfulMonad m] {inner : Sink m} (hi : inner.Preserves) (length : Nat)
    {keys : List Key} {doc : Document} (h : (takeColumns keys doc).outcome = .ok ()) :
    withColumns inner length (takeColumns keys doc) =
      (fun outcome => (outcome, doc)) <$>
        untilFault (fun row =>
          inner.outcome (doc.fill (rowWrites row (takeColumns keys doc).columns)))
          (List.range length) := by
  rw [withColumns_eq_close, h]
  exact (took_of_ok h).eachRow_close hi _ (took_of_ok h).within

theorem withColumns_of_error [LawfulMonad m] (inner : Sink m) (length : Nat) {keys : List Key}
    {doc : Document} {fault : Fault} (h : (takeColumns keys doc).outcome = .error fault) :
    withColumns inner length (takeColumns keys doc) = pure (.error fault, doc) := by
  rw [withColumns_eq_close, h, map_pure, close, putBack_takeColumns]
  rfl

/-! ## The whole walk -/

/-- **A walk hands the document back as it was**, if its sink does. -/
theorem preserves_expand [LawfulMonad m] {sink : Sink m} (hs : sink.Preserves) (bindings : Bindings)
    (keys : List Key) : Sink.Preserves (expand sink bindings keys) := by
  induction keys with
  | nil => exact hs
  | cons head rest ih =>
    intro doc
    rw [Sink.outcome, expand]
    -- a level stops at its checks, stops at the taking, or goes through its rows
    cases groupLength bindings doc head with
    | error fault => simp only [map_pure]
    | ok length =>
      simp only
      cases ht : (takeColumns (bindings.find head) doc).outcome with
      | error fault => rw [withColumns_of_error _ _ ht, map_pure, map_pure]
      | ok done =>
        rw [withColumns_eq ih length ht, Functor.map_map, Functor.map_map]

/-- **The document after a walk is the document before it**, values and order of names alike,
whether every visit succeeded, some level had no arrays to take, or the sink failed at some leaf. -/
theorem document_after_expand {σ : Type} {sink : Sink (StateM σ)}
    (hs : ∀ doc s, (sink doc s).1.2 = doc) (bindings : Bindings) (keys : List Key) (doc : Document)
    (s : σ) :
    (expand sink bindings keys doc s).1.2 = doc :=
  (Sink.preserves_iff _).1 (preserves_expand ((Sink.preserves_iff sink).2 hs) bindings keys) doc s

/-- A sink that takes a number of documents and refuses the next one. -/
def countdown : Sink (StateM Nat) := fun doc left =>
  match left with
  | 0 => ((.error (.unsupportedFormat "stop"), doc), 0)
  | left + 1 => ((.ok (), doc), left)

/-- Two runs with their names; only the first run has sizes to go through. -/
def twoRuns : Document := ⟨[
  ("runs", .list [.table [("sizes", .list [.text "s", .text "m"])], .table [("sizes", .text "l")]]),
  ("names", .list [.text "x", .text "y"])]⟩

/-- A refusal in the middle of the inner level, with a run and a name substituted around it. -/
theorem document_after_refusal :
    (∀ doc left, (countdown doc left).1.2 = doc) ∧
      (expand countdown ⟨[[⟨["runs"]⟩, ⟨["names"]⟩]]⟩
        [⟨["runs"]⟩, ⟨["runs", "sizes"]⟩] twoRuns 1).1.1 =
        .error (.unsupportedFormat "stop") ∧
      (expand countdown ⟨[[⟨["runs"]⟩, ⟨["names"]⟩]]⟩
        [⟨["runs"]⟩, ⟨["runs", "sizes"]⟩] twoRuns 1).1.2 = twoRuns := by
  have hs : ∀ doc left, (countdown doc left).1.2 = doc := fun _ left => by cases left <;> rfl
  exact ⟨hs, rfl, document_after_expand hs _ _ twoRuns 1⟩

end Expansion

end Sweep
