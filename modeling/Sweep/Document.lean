import Sweep.Document.Entries
import Sweep.Fault

/-!
# Documents

A **document** is the table at the root of a configuration file. A key is looked up by entering one
table per segment; nothing is ever created on the way, so a key is either the place of an existing
value or a fault, and the fault names the first segment that stops the walk.

There are two walks. `Document.get` looks a value up. `Document.slot` opens the place of a value: it
holds the value there and rebuilds the document around whatever is put in its stead. Writing goes
through slots.
-/

set_option autoImplicit false

namespace Sweep

/-- The root table of a configuration file. -/
structure Document where
  entries : List (String × Value)
deriving Inhabited

namespace Document

/-- The value at the end of a path of segments of `key`. -/
def lookUp (key : Key) : List String → List (String × Value) → Except Fault Value
  | [], _ => .error (.missingSegment key "")
  | [last], entries =>
    match Entries.find? last entries with
    | some value => .ok value
    | none => .error (.missingSegment key last)
  | segment :: rest, entries =>
    match Entries.find? segment entries with
    | some (.table inner) => lookUp key rest inner
    | some _ => .error (.notADocument key segment)
    | none => .error (.missingSegment key segment)

def get (doc : Document) (key : Key) : Except Fault Value := lookUp key key.segments doc.entries

/-- An open place: what it holds, and the entries around it once it is refilled. -/
structure Place where
  held : Value
  refill : Value → List (String × Value)

/-- The place at the end of a path of segments of `key`. -/
def placeAt (key : Key) : List String → List (String × Value) → Except Fault Place
  | [], _ => .error (.missingSegment key "")
  | [last], entries =>
    match Entries.find? last entries with
    | some value => .ok ⟨value, fun new => Entries.assign last new entries⟩
    | none => .error (.missingSegment key last)
  | segment :: rest, entries =>
    match Entries.find? segment entries with
    | some (.table inner) =>
      match placeAt key rest inner with
      | .ok place =>
        .ok ⟨place.held, fun new => Entries.assign segment (.table (place.refill new)) entries⟩
      | .error fault => .error fault
    | some _ => .error (.notADocument key segment)
    | none => .error (.missingSegment key segment)

/-- A value of a document, open for writing. -/
structure Slot where
  held : Value
  refill : Value → Document

def slot (doc : Document) (key : Key) : Except Fault Slot :=
  match placeAt key key.segments doc.entries with
  | .ok place => .ok ⟨place.held, fun new => ⟨place.refill new⟩⟩
  | .error fault => .error fault

/-- Put a value at a key: the previous value, and the document with the new one. -/
def replace (doc : Document) (key : Key) (new : Value) : Except Fault (Value × Document) :=
  match doc.slot key with
  | .ok slot => .ok (slot.held, slot.refill new)
  | .error fault => .error fault

def set (doc : Document) (key : Key) (new : Value) : Except Fault Document :=
  match doc.replace key new with
  | .ok (_, doc) => .ok doc
  | .error fault => .error fault

end Document

end Sweep
