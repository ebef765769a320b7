import Sweep.Document.Value

/-!
# Dates in JSON

JSON has no dates, so a date or time is written as a string with its text. `plain` replaces every
one in a value; nothing else changes.
-/

set_option autoImplicit false

namespace Sweep.Json

mutual

def plain : Value → Value
  | .list items => .list (plainItems items)
  | .table entries =>
    match Value.datetime? (.table entries) with
    | some stamp => .text stamp
    | none => .table (plainEntries entries)
  | v => v

def plainItems : List Value → List Value
  | [] => []
  | first :: rest => plain first :: plainItems rest

def plainEntries : List (String × Value) → List (String × Value)
  | [] => []
  | (name, value) :: rest => (name, plain value) :: plainEntries rest

end

end Sweep.Json
