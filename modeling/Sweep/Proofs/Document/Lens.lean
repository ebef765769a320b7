import Sweep.Proofs.Document.Places
import Sweep.Proofs.Document.Put

/-!
# Keys as lenses

A key is a place of a document or it is not, and all ways to get there agree on it. Where it is
none, the walk stops at one segment (`Stops`): at the first that names nothing, or at the first that
should be entered and holds no table. Every access then fails with the fault of that segment, and a
write leaves the document as it is (`put_of_get_error`).

Where a key is a place, reading and writing are a lens: what was put is read, putting back what was
read undoes a write, and nothing else changes. The names of all tables keep their order, also of
tables that lie in lists, where no key leads (`tableNames_put`); only what was at the key is gone.
-/

set_option autoImplicit false

namespace Sweep

namespace Document

/-! ## Where a walk stops -/

/-- The segments lead to no value: the fault of the first one that stops the walk. -/
inductive Stops (key : Key) (segments : List String) (entries : List (String × Value)) :
    Fault → Prop where
  | empty : segments = [] → Stops key segments entries (.missingSegment key "")
  /-- all segments of `path` are entered, and the next one names nothing -/
  | absent {path rest : List String} {segment : String} {inner : List (String × Value)} :
      segments = path ++ segment :: rest → Entries.tableAt path entries = some inner →
      Entries.find? segment inner = none → Stops key segments entries (.missingSegment key segment)
  /-- all segments of `path` are entered, and the next one cannot be although there are more -/
  | closed {path rest : List String} {segment next : String} {inner : List (String × Value)}
      {held : Value} : segments = path ++ segment :: next :: rest →
      Entries.tableAt path entries = some inner → Entries.find? segment inner = some held →
      held.IsLeaf → Stops key segments entries (.notADocument key segment)

variable {key : Key} {entries inner : List (String × Value)} {fault : Fault}

theorem Stops.enter {segment : String} {rest : List String}
    (hf : Entries.find? segment entries = some (.table inner)) (hr : rest ≠ [])
    (h : Stops key rest inner fault) : Stops key (segment :: rest) entries fault := by
  cases h with
  | empty he => exact absurd he hr
  | @absent path more name within he ht hn =>
    have hsegments : segment :: rest = (segment :: path) ++ name :: more := by
      rw [he, List.cons_append]
    refine .absent hsegments ?_ hn
    rw [Entries.tableAt, hf]
    exact ht
  | @closed path more name next within held he ht hh hl =>
    have hsegments : segment :: rest = (segment :: path) ++ name :: next :: more := by
      rw [he, List.cons_append]
    refine .closed hsegments ?_ hh hl
    rw [Entries.tableAt, hf]
    exact ht

/-- The walk enters the tables on its way, one after the other. -/
theorem lookUp_append {path rest : List String} (ht : Entries.tableAt path entries = some inner)
    (hr : rest ≠ []) :
    lookUp key (path ++ rest) entries = lookUp key rest inner := by
  induction path generalizing entries with
  | nil =>
    cases ht
    rfl
  | cons segment path ih =>
    rw [Entries.tableAt] at ht
    split at ht
    · next within hf =>
      obtain ⟨next, more, hmore⟩ :=
        List.exists_cons_of_ne_nil (List.append_ne_nil_of_right_ne_nil path hr)
      rw [List.cons_append, hmore, lookUp, hf, ← hmore]
      · exact ih ht
      · simp
    · cases ht

/-- **A look-up fails exactly where the walk stops**, with the fault of the segment that stops
it. -/
theorem lookUp_eq_error_iff {segments : List String} :
    lookUp key segments entries = .error fault ↔ Stops key segments entries fault := by
  constructor
  · intro h
    induction segments generalizing entries with
    | nil =>
      cases h
      exact .empty rfl
    | cons segment rest ih =>
      cases rest with
      | nil =>
        rw [lookUp] at h
        split at h
        · cases h
        · next hn =>
          cases h
          exact .absent (List.nil_append [segment]).symm rfl hn
      | cons next rest =>
        rw [lookUp] at h
        split at h
        · next hf => exact (ih h).enter hf (List.cons_ne_nil next rest)
        · next held hl hf =>
          cases h
          exact .closed (List.nil_append (segment :: next :: rest)).symm rfl hf hl
        · next hn =>
          cases h
          exact .absent (List.nil_append (segment :: next :: rest)).symm rfl hn
        · simp
  · intro h
    cases h with
    | empty he =>
      rw [he]
      rfl
    | @absent path rest segment inner he ht hn =>
      rw [he, lookUp_append ht (List.cons_ne_nil segment rest)]
      cases rest with
      | nil => rw [lookUp, hn]
      | cons next rest => simp [lookUp, hn]
    | @closed path rest segment next inner held he ht hh hl =>
      rw [he, lookUp_append ht (List.cons_ne_nil segment _)]
      cases held with
      | table entries => exact absurd rfl (hl entries)
      | _ => simp [lookUp, hh]

theorem get_eq_error_iff {doc : Document} :
    doc.get key = .error fault ↔ Stops key key.segments doc.entries fault :=
  lookUp_eq_error_iff

/-! ## Places that are none -/

theorem putAt_of_lookUp_error {segments : List String}
    (h : lookUp key segments entries = .error fault) (new : Value) :
    Entries.putAt new segments entries = entries := by
  induction segments generalizing entries with
  | nil => rfl
  | cons segment rest ih =>
    apply Entries.modify_eq_self
    intro held hf
    cases rest with
    | nil =>
      rw [lookUp, hf] at h
      cases h
    | cons next rest =>
      cases held with
      | table inner =>
        rw [lookUp, hf] at h
        · exact congrArg Value.table (ih h)
        · simp
      | _ => rfl

/-- **A write where no place is changes nothing.** -/
theorem put_of_get_error {doc : Document} (h : doc.get key = .error fault) (new : Value) :
    doc.put key new = doc := by
  rw [put, putAt_of_lookUp_error h]

theorem slot_eq (doc : Document) (key : Key) :
    doc.slot key = (doc.get key).map fun held => ⟨held, doc.put key⟩ := by
  rw [slot, placeAt_eq, get]
  cases lookUp key key.segments doc.entries <;> rfl

end Document

/-! ## The order of names -/

/-- The names of a table, in their order. -/
def Value.names? : Value → Option (List String)
  | .table entries => some (entries.map Prod.fst)
  | _ => none

/-- The names of the table at a place of a document. -/
def Document.tableNames (doc : Document) (place : List Value.Step) : Option (List String) :=
  (doc.at? place).bind Value.names?

/-- A write changes the names of no table but in what it replaces. -/
theorem Value.names?_putIn (new : Value) {segments : List String} {place : List Step}
    (h : ¬ segments.map Step.name <+: place) (v : Value) :
    ((putIn new segments v).at? place).bind names? = (v.at? place).bind names? := by
  induction segments generalizing place v with
  | nil => exact absurd List.nil_prefix h
  | cons segment rest ih =>
    cases v with
    | table entries =>
      cases place with
      | nil => exact congrArg some (Entries.names_modify segment _ entries)
      | cons step place =>
        cases step with
        | index index => rfl
        | name name =>
          simp only [putIn, at?]
          by_cases hs : segment = name
          · -- the write goes on where the place does
            subst hs
            have hr : ¬ rest.map Step.name <+: place :=
              fun hp => h (List.cons_prefix_cons.2 ⟨rfl, hp⟩)
            rw [Entries.find?_modify_self]
            cases Entries.find? segment entries with
            | none => rfl
            | some held => exact ih hr held
          · rw [Entries.find?_modify_ne hs]
    | _ => rfl

namespace Document

theorem tableNames_put {key : Key} {place : List Value.Step}
    (h : ¬ key.segments.map .name <+: place) (doc : Document) (new : Value) :
    (doc.put key new).tableNames place = doc.tableNames place := by
  have hne : key.segments ≠ [] := by
    intro he
    rw [he] at h
    exact h List.nil_prefix
  rw [tableNames, at?, put_eq_putIn doc hne]
  exact Value.names?_putIn new h _

/-! ## The laws -/

/-- **Keys are lenses.** A key is a place for all accesses or for none. It is none exactly where the
walk stops, and then all of them fail with the fault of that segment, and a write leaves the
document as it is. At a place, writing gives what reading gave and can be undone, what was written
is read, and all that is apart from the place stays: the names of tables in their order, and what
other keys read or why they fail. -/
theorem lens_laws (doc : Document) (key : Key) :
    (∀ fault, doc.get key = .error fault ↔ Stops key key.segments doc.entries fault) ∧
      (∀ fault, doc.get key = .error fault → doc.slot key = .error fault ∧
        ∀ new, doc.replace key new = .error fault ∧ doc.set key new = .error fault ∧
          doc.put key new = doc) ∧
      ∀ held, doc.get key = .ok held → doc.slot key = .ok ⟨held, doc.put key⟩ ∧
        ∀ new, doc.replace key new = .ok (held, doc.put key new) ∧
          doc.set key new = .ok (doc.put key new) ∧ (doc.put key new).get key = .ok new ∧
          (doc.put key new).replace key held = .ok (new, doc) ∧
          (∀ place, ¬ key.segments.map .name <+: place →
            (doc.put key new).tableNames place = doc.tableNames place) ∧
          ∀ other, key.Apart other → (doc.put key new).get other = doc.get other := by
  refine ⟨fun fault => get_eq_error_iff, ?_, ?_⟩
  · intro fault h
    refine ⟨by rw [slot_eq, h]; rfl, fun new => ⟨?_, ?_, put_of_get_error h new⟩⟩
    · rw [replace_eq, h]
      rfl
    · rw [set_eq, h]
      rfl
  · intro held h
    refine ⟨by rw [slot_eq, h]; rfl,
      fun new => ⟨replace_of_get h new, set_of_get h new, get_put_self h new, ?_, ?_, ?_⟩⟩
    · rw [replace_of_get (get_put_self h new), put_put, put_self h]
    · exact fun place hp => tableNames_put hp doc new
    · exact fun other ha => get_put_of_apart ha doc new

/-- A run with a name and a list of ranges, whose ends stand in front of their beginnings. -/
def settings : Document := ⟨[
  ("run", .table [("name", .text "a"),
    ("ranges", .list [.table [("to", .null), ("from", .null)]])]),
  ("draft", .bool true)]⟩

/-- The name of the run is a place, below which there is none; writing it disturbs no range. -/
theorem lens_laws_of_settings :
    settings.set ⟨["run", "name", "first"]⟩ .null =
      .error (.notADocument ⟨["run", "name", "first"]⟩ "name") ∧
      settings.get ⟨["run", "name"]⟩ = .ok (.text "a") ∧
      (settings.put ⟨["run", "name"]⟩ .null).replace ⟨["run", "name"]⟩ (.text "a") =
        .ok (.null, settings) ∧
      (settings.put ⟨["run", "name"]⟩ .null).tableNames [.name "run", .name "ranges", .index 0] =
        some ["to", "from"] ∧
      (settings.put ⟨["run", "name"]⟩ .null).get ⟨["run", "ranges"]⟩ =
        settings.get ⟨["run", "ranges"]⟩ := by
  obtain ⟨hstops, hfail, -⟩ := lens_laws settings ⟨["run", "name", "first"]⟩
  obtain ⟨-, -, hplace⟩ := lens_laws settings ⟨["run", "name"]⟩
  have hclosed : Stops ⟨["run", "name", "first"]⟩ ["run", "name", "first"] settings.entries
      (.notADocument ⟨["run", "name", "first"]⟩ "name") := by
    have hleaf : (Value.text "a").IsLeaf := fun entries => Value.noConfusion
    have hpath : ["run", "name", "first"] = ["run"] ++ "name" :: "first" :: [] := rfl
    exact .closed hpath rfl rfl hleaf
  have hname : settings.get ⟨["run", "name"]⟩ = .ok (.text "a") := rfl
  obtain ⟨-, -, -, hback, hnames, hapart⟩ := (hplace _ hname).2 .null
  refine ⟨((hfail _ ((hstops _).2 hclosed)).2 .null).2.1, hname, hback, ?_, ?_⟩
  · rw [hnames _ (by decide)]
    rfl
  · exact hapart _ ⟨by decide, by decide⟩

end Document

end Sweep
