import Sweep.Toml.Item

/-!
# Tables under construction

The tables of a TOML text are not written down in one piece: headers and dotted keys add to them
from different lines, and there are rules about **who may add to what**. A draft remembers where
each table comes from:

* a table with a header of its own is complete in its section, and a second header for it is a
  fault;
* a table that was only passed through on the way to another header may still get its header, once;
* a table made by dotted keys takes more dotted keys, and no header;
* a finished item, an inline table among them, takes nothing.

A table that gets its header late moves to the end of the table it lies in.
-/

set_option autoImplicit false

namespace Sweep.Toml

/-- Where a table under construction comes from. -/
inductive Origin where
  | header
  | passedThrough
  | dotted
deriving DecidableEq, Repr

/-- A value under construction. -/
inductive Draft where
  | item (item : Item)
  | table (origin : Origin) (entries : List (String × Draft))
  /-- an array of tables, of which the last can still grow -/
  | elements (elements : List (List (String × Draft)))

abbrev DraftEntries := List (String × Draft)

namespace DraftEntries

def editLast (edit : DraftEntries → Option DraftEntries) :
    List DraftEntries → Option (List DraftEntries)
  | [] => none
  | [last] => (edit last).map ([·])
  | first :: rest => (editLast edit rest).map (first :: ·)

/-- Edit the table at a path, passing through tables that are not there yet. Into an array of tables
the path leads to the last one. -/
def editAt (edit : DraftEntries → Option DraftEntries) :
    List String → DraftEntries → Option DraftEntries
  | [], entries => edit entries
  | name :: rest, entries =>
    match Entries.find? name entries with
    | none =>
      (editAt edit rest []).map fun inner => entries ++ [(name, .table .passedThrough inner)]
    | some (.table origin inner) =>
      (editAt edit rest inner).map fun inner => Entries.assign name (.table origin inner) entries
    | some (.elements elements) =>
      (editLast (editAt edit rest) elements).map fun elements =>
        Entries.assign name (.elements elements) entries
    | some (.item _) => none

def openTable (name : String) (entries : DraftEntries) : Option DraftEntries :=
  match Entries.find? name entries with
  | none => some (entries ++ [(name, .table .header [])])
  | some (.table .passedThrough inner) =>
    some (Entries.erase name entries ++ [(name, .table .header inner)])
  | some _ => none

/-- Open the section of one more element of an array of tables. -/
def openElement (name : String) (entries : DraftEntries) : Option DraftEntries :=
  match Entries.find? name entries with
  | none => some (entries ++ [(name, .elements [[]])])
  | some (.elements elements) => some (Entries.assign name (.elements (elements ++ [[]])) entries)
  | some _ => none

/-- Give a new name its item, in the table that a dotted path leads to. The table must be this one
or one made by dotted keys. -/
def assignDotted (name : String) (item : Item) : List String → DraftEntries → Option DraftEntries
  | [], entries =>
    match Entries.find? name entries with
    | none => some (entries ++ [(name, .item item)])
    | some _ => none
  | step :: rest, entries =>
    match Entries.find? step entries with
    | none =>
      (assignDotted name item rest []).map fun inner => entries ++ [(step, .table .dotted inner)]
    | some (.table .header _) => none
    | some (.table .passedThrough inner) =>
      if rest.isEmpty then none
      else (assignDotted name item rest inner).map fun inner =>
        Entries.assign step (.table .passedThrough inner) entries
    | some (.table .dotted inner) =>
      (assignDotted name item rest inner).map fun inner =>
        Entries.assign step (.table .dotted inner) entries
    | some (.elements elements) =>
      if rest.isEmpty then none
      else (editLast (assignDotted name item rest) elements).map fun elements =>
        Entries.assign step (.elements elements) entries
    | some (.item _) => none

end DraftEntries

namespace Draft

mutual

def finish : Draft → Item
  | .item done => done
  | .table _ entries => .table (finishEntries entries)
  | .elements tables => .list (finishElements tables)

def finishElements : List (List (String × Draft)) → List Item
  | [] => []
  | entries :: rest => .table (finishEntries entries) :: finishElements rest

def finishEntries : List (String × Draft) → List (String × Item)
  | [] => []
  | (name, draft) :: rest => (name, finish draft) :: finishEntries rest

end

end Draft

end Sweep.Toml
