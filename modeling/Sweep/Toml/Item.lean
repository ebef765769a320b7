import Sweep.Document.Entries
import Sweep.Fault
import Sweep.Toml.Datetime.Reader

/-!
# What TOML can hold

TOML has no null and only signed whole numbers, but it has dates and times and numbers that are not
finite. An `Item` is a value of TOML. `Item.toValue` takes one into a document, where a number that
is not finite becomes null; `Item.ofValue` takes a value of a document to TOML, and fails at the
first null and at the first date whose text is none.

A text can spell a date as a document does, as a table whose first entry is `Value.datetimeField`.
`Item.resolveEntries?` turns such tables into the dates they stand for.
-/

set_option autoImplicit false

namespace Sweep.Toml

/-- A value of TOML. -/
inductive Item where
  | text (value : String)
  | whole (value : Int)
  | double (value : Double)
  /-- an infinity, or no number at all -/
  | notFinite
  | bool (value : Bool)
  | datetime (value : Datetime)
  | list (items : List Item)
  | table (entries : List (String × Item))

namespace Item

/-! ## Into a document -/

mutual

/-- The value of a document that stands for an item. -/
def toValue : Item → Value
  | .text s => .text s
  | .whole n => (Whole.ofInt? n).elim .null .whole
  | .double x => .double x
  | .notFinite => .null
  | .bool b => .bool b
  | .datetime d => .ofDatetime (String.ofList d.text)
  | .list items => .list (toValues items)
  | .table entries => .table (toEntries entries)

def toValues : List Item → List Value
  | [] => []
  | item :: rest => toValue item :: toValues rest

def toEntries : List (String × Item) → List (String × Value)
  | [] => []
  | (name, item) :: rest => (name, toValue item) :: toEntries rest

end

/-! ## Marked tables -/

/-- The item that marks a table as a date: the first one, under the name for it. -/
def mark? : List (String × Item) → Option Item
  | (name, first) :: _ => if name = Value.datetimeField then some first else none
  | [] => none

/-- The date that the item in a mark stands for; it must be a text. -/
def ofMark? : Item → Option Item
  | .text stamp => (Datetime.ofText stamp.toList).toOption.map .datetime
  | _ => none

mutual

/-- An item with dates for the marked tables in it. What follows a mark in its table is not looked
at. -/
def resolve? : Item → Option Item
  | .list items => (resolveItems? items).map .list
  | .table entries =>
    match mark? entries with
    | some first => ofMark? first
    | none => (resolveEntries? entries).map .table
  | item => some item

/-- Items with dates for the marked tables in them. -/
def resolveItems? : List Item → Option (List Item)
  | [] => some []
  | item :: rest =>
    match resolve? item with
    | none => none
    | some item => (resolveItems? rest).map (item :: ·)

/-- Entries with dates for the marked tables in them. -/
def resolveEntries? : List (String × Item) → Option (List (String × Item))
  | [] => some []
  | (name, item) :: rest =>
    match resolve? item with
    | none => none
    | some item => (resolveEntries? rest).map ((name, item) :: ·)

end

/-! ## From a document -/

/-- The item for a whole number: past the signed range it is a double. -/
def ofWhole (n : Whole) : Item := if n.isSigned then .whole n.value else .double (.ofInt n.value)

def ofStamp (stamp : String) : Except EncodeFault Item :=
  match Datetime.ofText stamp.toList with
  | .ok d => .ok (.datetime d)
  | .error why => .error (.malformedDatetime why)

mutual

def ofValue : Value → Except EncodeFault Item
  | .null => .error .null
  | .bool b => .ok (.bool b)
  | .whole n => .ok (ofWhole n)
  | .double x => .ok (.double x)
  | .text s => .ok (.text s)
  | .list items => (ofValues items).map .list
  | .table entries =>
    match Value.datetime? (.table entries) with
    | some stamp => ofStamp stamp
    | none => (ofEntries entries).map .table

/-- The items for values, up to the first that has none. -/
def ofValues : List Value → Except EncodeFault (List Item)
  | [] => .ok []
  | value :: rest =>
    match ofValue value with
    | .error why => .error why
    | .ok item => (ofValues rest).map (item :: ·)

/-- The named items for entries, up to the first that has none. -/
def ofEntries : List (String × Value) → Except EncodeFault (List (String × Item))
  | [] => .ok []
  | (name, value) :: rest =>
    match ofValue value with
    | .error why => .error why
    | .ok item => (ofEntries rest).map ((name, item) :: ·)

end

end Item

end Sweep.Toml
