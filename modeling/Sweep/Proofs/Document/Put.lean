import Sweep.Document

/-!
# Writing at a key, as one total function

`Document.replace` opens a place, which may fail, and then refills it. `Document.put` is the same
write without the failure: it changes the value at the end of a path and gives the document back as
it is where the path leads nowhere. `Document.replace_eq` ties the two together, and says at once
that reading and writing fail on the same keys with the same fault:

> `doc.replace key new` is `doc.get key`, with `doc.put key new` beside the value.

All laws of writing are laws of `put`, and need no case for failure. Two keys of which neither is a
path into the other are **apart** (`Key.Apart`); writes at such keys do not see each other. Two
different keys that both hold something other than a table are apart, since one could only lead
through the other by way of a table.
-/

set_option autoImplicit false

namespace Sweep

namespace Entries

variable {α : Type}

/-- The entries with the value of a name changed by a function. -/
def modify (name : String) (f : α → α) : List (String × α) → List (String × α)
  | [] => []
  | (other, value) :: rest =>
    if other = name then (other, f value) :: rest else (other, value) :: modify name f rest

/-! ## Changing one entry -/

theorem assign_eq_modify (name : String) (new : α) (entries : List (String × α)) :
    assign name new entries = modify name (fun _ => new) entries := by
  induction entries with
  | nil => rfl
  | cons entry rest ih => simp only [assign, modify, ih]

theorem find?_modify_self (name : String) (f : α → α) (entries : List (String × α)) :
    find? name (modify name f entries) = (find? name entries).map f := by
  induction entries with
  | nil => rfl
  | cons entry rest ih =>
    simp only [modify, find?]
    split
    · simp [find?, *]
    · simp [find?, *]

theorem find?_modify_ne {name other : String} (h : name ≠ other) (f : α → α)
    (entries : List (String × α)) :
    find? other (modify name f entries) = find? other entries := by
  induction entries with
  | nil => rfl
  | cons entry rest ih =>
    simp only [modify]
    split
    · rename_i he
      simp [find?, he, h]
    · simp only [find?, ih]

theorem modify_modify (name : String) (f g : α → α) (entries : List (String × α)) :
    modify name g (modify name f entries) = modify name (g ∘ f) entries := by
  induction entries with
  | nil => rfl
  | cons entry rest ih =>
    simp only [modify]
    split <;> simp [modify, *]

theorem modify_comm {name other : String} (h : name ≠ other) (f g : α → α)
    (entries : List (String × α)) :
    modify other g (modify name f entries) = modify name f (modify other g entries) := by
  induction entries with
  | nil => rfl
  | cons entry rest ih =>
    by_cases hn : entry.1 = name
    · have ho : entry.1 ≠ other := hn ▸ h
      simp [modify, hn, h]
    · by_cases ho : entry.1 = other
      · simp [modify, ho, Ne.symm h]
      · simp [modify, hn, ho, ih]

theorem modify_congr {name : String} {f g : α → α} {entries : List (String × α)}
    (h : ∀ value, find? name entries = some value → f value = g value) :
    modify name f entries = modify name g entries := by
  induction entries with
  | nil => rfl
  | cons entry rest ih =>
    simp only [find?] at h
    simp only [modify]
    split
    · rename_i he
      rw [h entry.2 (if_pos he)]
    · rename_i he
      rw [ih (fun value hv => h value (by rw [if_neg he]; exact hv))]

theorem modify_id (name : String) (entries : List (String × α)) :
    modify name id entries = entries := by
  induction entries with
  | nil => rfl
  | cons entry rest ih =>
    simp only [modify, ih, id]
    split <;> rfl

theorem modify_eq_self {name : String} {f : α → α} {entries : List (String × α)}
    (h : ∀ value, find? name entries = some value → f value = value) :
    modify name f entries = entries :=
  (modify_congr h).trans (modify_id name entries)

theorem names_modify (name : String) (f : α → α) (entries : List (String × α)) :
    (modify name f entries).map Prod.fst = entries.map Prod.fst := by
  induction entries with
  | nil => rfl
  | cons entry rest ih =>
    simp only [modify]
    split <;> simp [*]

end Entries

/-! ## One write -/

/-- A value with what stands at the end of a path replaced. -/
def Value.putIn (new : Value) : List String → Value → Value
  | [], _ => new
  | segment :: rest, .table entries => .table (Entries.modify segment (putIn new rest) entries)
  | _ :: _, other => other

/-- Entries with what stands at the end of a path replaced; the empty path is no place. -/
def Entries.putAt (new : Value) : List String → List (String × Value) → List (String × Value)
  | [], entries => entries
  | segment :: rest, entries => modify segment (Value.putIn new rest) entries

/-- The entries of the table at the end of a path. -/
def Entries.tableAt : List String → List (String × Value) → Option (List (String × Value))
  | [], entries => some entries
  | segment :: rest, entries =>
    match find? segment entries with
    | some (.table inner) => tableAt rest inner
    | _ => none

/-- The document with a value put at a key; the same document if the key is no place in it. -/
def Document.put (doc : Document) (key : Key) (new : Value) : Document :=
  ⟨Entries.putAt new key.segments doc.entries⟩

/-- A value that is no table: no key leads through it. -/
def Value.IsLeaf (value : Value) : Prop := ∀ entries, value ≠ .table entries

theorem not_prefix_tail {segment : String} {rest others : List String}
    (h : ¬ segment :: rest <+: segment :: others) : ¬ rest <+: others := fun hp =>
  h (List.cons_prefix_cons.2 ⟨rfl, hp⟩)

/-- Neither key is a path into the other. -/
def Key.Apart (a b : Key) : Prop := ¬ a.segments <+: b.segments ∧ ¬ b.segments <+: a.segments

theorem Key.Apart.symm {a b : Key} (h : a.Apart b) : b.Apart a := ⟨h.2, h.1⟩

namespace Document

/-! ## Reading and writing fail together -/

/-- Opening a place is looking it up, with the write beside the value. -/
theorem placeAt_eq (key : Key) (path : List String) (entries : List (String × Value)) :
    placeAt key path entries =
      (lookUp key path entries).map (fun held =>
        ⟨held, fun new => Entries.putAt new path entries⟩) := by
  induction path generalizing entries with
  | nil => rfl
  | cons segment rest ih =>
    cases rest with
    | nil =>
      simp only [placeAt, lookUp, Entries.putAt, Entries.assign_eq_modify]
      cases Entries.find? segment entries <;> rfl
    | cons next rest =>
      simp only [placeAt, lookUp]
      cases hf : Entries.find? segment entries with
      | none => rfl
      | some value =>
        cases value with
        | table inner =>
          simp only [ih]
          cases lookUp key (next :: rest) inner with
          | error fault => rfl
          | ok held =>
            simp only [Except.map, Except.ok.injEq, Place.mk.injEq, true_and]
            funext new
            -- the place puts the changed table back under `segment`, where `inner` was
            rw [Entries.putAt, Entries.assign_eq_modify]
            refine Entries.modify_congr fun value hv => ?_
            rw [hf, Option.some.injEq] at hv
            rw [← hv]
            rfl
        | _ => rfl

theorem replace_eq (doc : Document) (key : Key) (new : Value) :
    doc.replace key new = (doc.get key).map (fun held => (held, doc.put key new)) := by
  rw [replace, slot, placeAt_eq, get]
  cases lookUp key key.segments doc.entries <;> rfl

theorem set_eq (doc : Document) (key : Key) (new : Value) :
    doc.set key new = (doc.get key).map (fun _ => doc.put key new) := by
  rw [set, replace_eq]
  cases doc.get key <;> rfl

theorem replace_of_get {doc : Document} {key : Key} {held : Value} (h : doc.get key = .ok held)
    (new : Value) :
    doc.replace key new = .ok (held, doc.put key new) := by
  rw [replace_eq, h]
  rfl

theorem set_of_get {doc : Document} {key : Key} {held : Value} (h : doc.get key = .ok held)
    (new : Value) :
    doc.set key new = .ok (doc.put key new) := by
  rw [set_eq, h]
  rfl

/-! ## Reading after writing -/

/-- A look-up gets past a name only where a table is. -/
theorem lookUp_eq_ok_of_cons {key : Key} {segment next : String} {rest : List String}
    {entries : List (String × Value)} {held : Value}
    (h : lookUp key (segment :: next :: rest) entries = .ok held) :
    ∃ inner, Entries.find? segment entries = some (.table inner) ∧
      lookUp key (next :: rest) inner = .ok held := by
  simp only [lookUp] at h
  split at h
  · rename_i inner hf
    exact ⟨inner, hf, h⟩
  · exact absurd h (by simp)
  · exact absurd h (by simp)

/-- A look-up that enters a name sees nothing of a change under another name. -/
theorem lookUp_modify_ne {name segment : String} (h : name ≠ segment) (key : Key)
    (f : Value → Value) (rest : List String) (entries : List (String × Value)) :
    lookUp key (segment :: rest) (Entries.modify name f entries) =
      lookUp key (segment :: rest) entries := by
  cases rest <;> simp only [lookUp, Entries.find?_modify_ne h]

theorem lookUp_putAt_self (key : Key) (new : Value) {path : List String}
    {entries : List (String × Value)} {held : Value} (h : lookUp key path entries = .ok held) :
    lookUp key path (Entries.putAt new path entries) = .ok new := by
  induction path generalizing entries with
  | nil => exact absurd h (by simp [lookUp])
  | cons segment rest ih =>
    cases rest with
    | nil =>
      simp only [lookUp, Entries.putAt, Entries.find?_modify_self] at h ⊢
      cases hf : Entries.find? segment entries with
      | none => rw [hf] at h; exact absurd h (by simp)
      | some value => rfl
    | cons next rest =>
      obtain ⟨inner, hf, hin⟩ := lookUp_eq_ok_of_cons h
      simp only [lookUp, Entries.putAt, Entries.find?_modify_self, hf]
      exact ih hin

theorem lookUp_putAt_apart (key : Key) (new : Value) {path other : List String}
    (h : ¬ path <+: other) (h' : ¬ other <+: path) (entries : List (String × Value)) :
    lookUp key other (Entries.putAt new path entries) = lookUp key other entries := by
  induction path generalizing other entries with
  | nil => exact absurd List.nil_prefix h
  | cons segment rest ih =>
    cases other with
    | nil => exact absurd List.nil_prefix h'
    | cons start others =>
      -- the paths part here or further down, where neither of them has ended yet
      by_cases hs : segment = start
      · subst hs
        have hr := not_prefix_tail h
        have ho := not_prefix_tail h'
        cases rest with
        | nil => exact absurd List.nil_prefix hr
        | cons next rest =>
          cases others with
          | nil => exact absurd List.nil_prefix ho
          | cons turn others =>
            simp only [lookUp, Entries.putAt, Entries.find?_modify_self]
            cases Entries.find? segment entries with
            | none => rfl
            | some value =>
              cases value with
              | table inner => exact ih hr ho inner
              | _ => rfl
      · exact lookUp_modify_ne hs key _ others entries

/-- A table stays a table, whatever is written below it. -/
theorem table_of_lookUp_putAt (key : Key) (new : Value) {path other : List String}
    (h : ¬ path <+: other) {entries inner : List (String × Value)}
    (ht : lookUp key other entries = .ok (.table inner)) :
    ∃ changed, lookUp key other (Entries.putAt new path entries) = .ok (.table changed) := by
  induction path generalizing other entries with
  | nil => exact absurd List.nil_prefix h
  | cons segment rest ih =>
    cases other with
    | nil => exact absurd ht (by simp [lookUp])
    | cons start others =>
      by_cases hs : segment = start
      · subst hs
        have hr := not_prefix_tail h
        cases rest with
        | nil => exact absurd List.nil_prefix hr
        | cons next rest =>
          cases others with
          | nil =>
            -- the write is below the table that is looked up
            simp only [lookUp, Entries.putAt, Entries.find?_modify_self] at ht ⊢
            cases hf : Entries.find? segment entries with
            | none =>
              rw [hf] at ht
              exact absurd ht (by simp)
            | some value =>
              rw [hf] at ht
              cases ht
              exact ⟨_, rfl⟩
          | cons turn others =>
            obtain ⟨within, hf, hin⟩ := lookUp_eq_ok_of_cons ht
            simp only [lookUp, Entries.putAt, Entries.find?_modify_self, hf]
            exact ih hr hin
      · refine ⟨inner, ?_⟩
        rw [← ht]
        exact lookUp_modify_ne hs key _ others entries

theorem get_put_self {doc : Document} {key : Key} {held : Value} (h : doc.get key = .ok held)
    (new : Value) :
    (doc.put key new).get key = .ok new := lookUp_putAt_self key new h

theorem get_put_of_apart {key other : Key} (h : key.Apart other) (doc : Document) (new : Value) :
    (doc.put key new).get other = doc.get other := lookUp_putAt_apart other new h.1 h.2 doc.entries

/-! ## Writing after writing -/

theorem putIn_putIn (first second : Value) (path : List String) (value : Value) :
    Value.putIn second path (Value.putIn first path value) = Value.putIn second path value := by
  induction path generalizing value with
  | nil => rfl
  | cons segment rest ih =>
    cases value with
    | table entries =>
      simp only [Value.putIn, Entries.modify_modify, Value.table.injEq]
      exact Entries.modify_congr fun value _ => ih value
    | _ => rfl

theorem put_put (doc : Document) (key : Key) (first second : Value) :
    (doc.put key first).put key second = doc.put key second := by
  simp only [put]
  cases key.segments with
  | nil => rfl
  | cons segment rest =>
    simp only [Entries.putAt, Entries.modify_modify]
    exact congrArg Document.mk (Entries.modify_congr fun value _ =>
      putIn_putIn first second rest value)

theorem putAt_self {key : Key} {path : List String} {entries : List (String × Value)} {held : Value}
    (h : lookUp key path entries = .ok held) : Entries.putAt held path entries = entries := by
  induction path generalizing entries with
  | nil => rfl
  | cons segment rest ih =>
    refine Entries.modify_eq_self fun value hv => ?_
    cases rest with
    | nil =>
      rw [lookUp, hv, Except.ok.injEq] at h
      exact h.symm
    | cons next rest =>
      obtain ⟨inner, hf, hin⟩ := lookUp_eq_ok_of_cons h
      rw [hf] at hv
      cases hv
      exact congrArg Value.table (ih hin)

theorem put_self {doc : Document} {key : Key} {held : Value} (h : doc.get key = .ok held) :
    doc.put key held = doc := by
  rw [put, putAt_self h]

/-- What was held is put back over anything that was put. -/
theorem set_put_of_get {doc : Document} {key : Key} {held : Value} (h : doc.get key = .ok held)
    (new : Value) :
    (doc.put key new).set key held = .ok doc := by
  rw [set_of_get (get_put_self h new), put_put, put_self h]

theorem putIn_comm (a b : Value) {path other : List String} (h : ¬ path <+: other)
    (h' : ¬ other <+: path) (value : Value) :
    Value.putIn b other (Value.putIn a path value) =
      Value.putIn a path (Value.putIn b other value) := by
  induction path generalizing other value with
  | nil => exact absurd List.nil_prefix h
  | cons segment rest ih =>
    cases other with
    | nil => exact absurd List.nil_prefix h'
    | cons start others =>
      cases value with
      | table entries =>
        simp only [Value.putIn, Value.table.injEq]
        by_cases hs : segment = start
        · subst hs
          have hr := not_prefix_tail h
          have ho := not_prefix_tail h'
          simp only [Entries.modify_modify]
          exact Entries.modify_congr fun value _ => ih hr ho value
        · exact Entries.modify_comm hs _ _ entries
      | _ => rfl

theorem put_eq_putIn (doc : Document) {key : Key} (h : key.segments ≠ []) (new : Value) :
    .table (doc.put key new).entries = Value.putIn new key.segments (.table doc.entries) := by
  rw [put]
  cases hk : key.segments with
  | nil => exact absurd hk h
  | cons segment rest => rfl

theorem put_comm {key other : Key} (h : key.Apart other) (doc : Document) (a b : Value) :
    (doc.put key a).put other b = (doc.put other b).put key a := by
  have hk : key.segments ≠ [] := fun hn => h.1 (hn ▸ List.nil_prefix)
  have ho : other.segments ≠ [] := fun hn => h.2 (hn ▸ List.nil_prefix)
  -- writing is told of values, so that the recursion can go through tables
  have ht : Value.table ((doc.put key a).put other b).entries =
      .table ((doc.put other b).put key a).entries := by
    rw [put_eq_putIn _ ho, put_eq_putIn _ hk, put_eq_putIn _ hk, put_eq_putIn _ ho]
    exact putIn_comm a b h.1 h.2 _
  exact congrArg Document.mk (Value.table.inj ht)

/-! ## The order of names -/

/-- The names of the table at the end of a path, in their order; the empty path is the whole
document. -/
def namesAt (doc : Document) (path : List String) : Option (List String) :=
  (Entries.tableAt path doc.entries).map (·.map Prod.fst)

theorem names_tableAt_putAt (new : Value) {path other : List String} (h : ¬ path <+: other)
    (entries : List (String × Value)) :
    (Entries.tableAt other (Entries.putAt new path entries)).map (·.map Prod.fst) =
      (Entries.tableAt other entries).map (·.map Prod.fst) := by
  induction path generalizing other entries with
  | nil => exact absurd List.nil_prefix h
  | cons segment rest ih =>
    cases other with
    | nil => exact congrArg some (Entries.names_modify segment _ entries)
    | cons start others =>
      simp only [Entries.tableAt, Entries.putAt]
      by_cases hs : segment = start
      · subst hs
        have hr := not_prefix_tail h
        rw [Entries.find?_modify_self]
        cases Entries.find? segment entries with
        | none => rfl
        | some value =>
          cases rest with
          | nil => exact absurd List.nil_prefix hr
          | cons next rest =>
            cases value with
            | table inner => exact ih hr inner
            | _ => rfl
      · rw [Entries.find?_modify_ne hs]

theorem namesAt_put {key : Key} {path : List String} (h : ¬ key.segments <+: path) (doc : Document)
    (new : Value) : (doc.put key new).namesAt path = doc.namesAt path :=
  names_tableAt_putAt new h doc.entries

/-! ## Keys that hold no tables -/

/-- What a path leads through is a table. -/
theorem table_of_lookUp_append {key other : Key} {path rest : List String}
    {entries : List (String × Value)} {held inside : Value} (h : lookUp key path entries = .ok held)
    (hr : rest ≠ []) (h' : lookUp other (path ++ rest) entries = .ok inside) :
    ∃ inner, held = .table inner := by
  induction path generalizing entries with
  | nil => exact absurd h (by simp [lookUp])
  | cons segment path ih =>
    cases path with
    | nil =>
      obtain ⟨next, rest, rfl⟩ := List.exists_cons_of_ne_nil hr
      obtain ⟨inner, hf, -⟩ := lookUp_eq_ok_of_cons h'
      rw [lookUp, hf, Except.ok.injEq] at h
      exact ⟨inner, h.symm⟩
    | cons next path =>
      -- both look-ups go through the same table under `segment`
      obtain ⟨inner, hf, hin⟩ := lookUp_eq_ok_of_cons h
      obtain ⟨inner', hf', hin'⟩ := lookUp_eq_ok_of_cons h'
      rw [hf] at hf'
      cases hf'
      exact ih hin hin'

theorem not_prefix_of_get {doc : Document} {key other : Key} {held inside : Value}
    (h : doc.get key = .ok held) (hl : held.IsLeaf) (h' : doc.get other = .ok inside)
    (hne : key ≠ other) :
    ¬ key.segments <+: other.segments := by
  rintro ⟨rest, hs⟩
  cases rest with
  | nil => exact hne (by cases key; cases other; simpa using hs)
  | cons next rest =>
    rw [get, ← hs] at h'
    obtain ⟨inner, hi⟩ := table_of_lookUp_append h (List.cons_ne_nil next rest) h'
    exact hl inner hi

/-- **Different keys that hold no tables are apart.** -/
theorem apart_of_get {doc : Document} {key other : Key} {held inside : Value}
    (h : doc.get key = .ok held) (hl : held.IsLeaf) (h' : doc.get other = .ok inside)
    (hl' : inside.IsLeaf) (hne : key ≠ other) :
    key.Apart other :=
  ⟨not_prefix_of_get h hl h' hne, not_prefix_of_get h' hl' h (Ne.symm hne)⟩

end Document

end Sweep
