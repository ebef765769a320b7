import Sweep.Bindings
import Sweep.Document

/-!
# Expansion

Every combination of the elements of some arrays, one document each. The expansion walks the
combinations depth first over **one** document: a level takes the arrays of its group out, leaving
nulls, puts the elements of one row in their places, goes on with the next key, and in the end puts
the arrays back. Whoever receives the documents may change one for its own purposes, and hands it
back.

All arrays of a group are measured before anything is taken out, so a level either starts with
columns of one length or leaves the document alone.

The walk is written over any monad, since what receives the documents may write files or may only
collect.
-/

set_option autoImplicit false

namespace Sweep

/-- Success or the fault that ends a run. -/
abbrev Outcome := Except Fault Unit

/-- Receives documents, and gives each back with the outcome. -/
abbrev Sink (m : Type → Type) := Document → m (Outcome × Document)

namespace Expansion

/-- The number of elements of the array at a key. -/
def arrayLength (doc : Document) (key : Key) : Except Fault Nat :=
  match doc.get key with
  | .ok (.list items) => .ok items.length
  | .ok _ => .error (.expectedArray key)
  | .error fault => .error fault

/-- Every other member of a group must hold an array of the length of `head`. -/
def checkMembers (doc : Document) (head : Key) (length : Nat) : List Key → Outcome
  | [] => .ok ()
  | member :: rest =>
    match arrayLength doc member with
    | .error fault => .error fault
    | .ok memberLength =>
      if memberLength = length then checkMembers doc head length rest
      else .error (.lengthMismatch head length member memberLength)

/-- The common length of the arrays of a group, measured from `head`. -/
def groupLength (bindings : Bindings) (doc : Document) (head : Key) : Except Fault Nat :=
  match arrayLength doc head with
  | .error fault => .error fault
  | .ok length =>
    match checkMembers doc head length (bindings.others head) with
    | .error fault => .error fault
    | .ok () => .ok length

/-- An array that was taken out of a document. -/
structure Column where
  key : Key
  items : List Value

/-- The outcome of taking arrays out: the columns so far, and the document with nulls in their
places. -/
structure Taken where
  outcome : Outcome
  columns : List Column
  document : Document

/-- Take the arrays of keys out of a document. -/
def takeColumns : List Key → Document → Taken
  | [], doc => ⟨.ok (), [], doc⟩
  | key :: rest, doc =>
    match doc.replace key .null with
    | .error fault => ⟨.error fault, [], doc⟩
    | .ok (.list items, doc) =>
      let taken := takeColumns rest doc
      { taken with columns := ⟨key, items⟩ :: taken.columns }
    | .ok (other, doc) =>
      match doc.set key other with
      | .ok doc => ⟨.error (.expectedArray key), [], doc⟩
      | .error fault => ⟨.error fault, [], doc⟩

/-- Put the elements of row `row` in the places of their columns. -/
def fillRow (row : Nat) : List Column → Document → Outcome × Document
  | [], doc => (.ok (), doc)
  | column :: rest, doc =>
    match doc.set column.key (column.items[row]?.getD .null) with
    | .ok doc => fillRow row rest doc
    | .error fault => (.error fault, doc)

/-- Put values back at their keys; every one is tried, and the first failure counts. -/
def putBack : List (Key × Value) → Document → Outcome × Document
  | [], doc => (.ok (), doc)
  | (key, value) :: rest, doc =>
    match doc.set key value with
    | .ok doc => putBack rest doc
    | .error fault => (.error fault, (putBack rest doc).2)

/-- The first of two outcomes that is a fault. -/
def both : Outcome → Outcome → Outcome
  | .ok (), second => second
  | first, _ => first

variable {m : Type → Type} [Monad m]

/-- Hand the document to `inner` once per row, with the elements of the row in their places. -/
def eachRow (inner : Sink m) (columns : List Column) : List Nat → Sink m
  | [], doc => pure (.ok (), doc)
  | row :: rest, doc =>
    match fillRow row columns doc with
    | (.error fault, doc) => pure (.error fault, doc)
    | (.ok (), doc) => do
      match ← inner doc with
      | (.error fault, doc) => pure (.error fault, doc)
      | (.ok (), doc) => eachRow inner columns rest doc

/-- The rows of taken columns, and the arrays put back in the reverse order of taking. -/
def withColumns (inner : Sink m) (length : Nat) (taken : Taken) : m (Outcome × Document) := do
  let (outcome, doc) ← match taken.outcome with
    | .ok () => eachRow inner taken.columns (List.range length) taken.document
    | .error fault => pure (.error fault, taken.document)
  let (restored, doc) :=
    putBack (taken.columns.reverse.map fun column => (column.key, .list column.items)) doc
  pure (both outcome restored, doc)

/-- Hand every combination of the arrays at the keys to `sink`; the first key varies slowest. The
first fault ends it, and the document comes back as it was. -/
def expand (sink : Sink m) (bindings : Bindings) : List Key → Sink m
  | [], doc => sink doc
  | head :: rest, doc =>
    match groupLength bindings doc head with
    | .error fault => pure (.error fault, doc)
    | .ok length =>
      withColumns (expand sink bindings rest) length (takeColumns (bindings.find head) doc)

end Expansion

end Sweep
