import Sweep.Json.Printer
import Sweep.Number.General

/-!
# Values as plain text

What a placeholder without a format shows: a text as it is, a date or time as its text, a number in
its shortest form, and anything with parts as compact JSON.
-/

set_option autoImplicit false

namespace Sweep.Value

def display (v : Value) : List Char :=
  match v.datetime? with
  | some stamp => stamp.toList
  | none =>
    match v with
    | .text s => s.toList
    | .double x => x.general none false
    | v => Json.compact v

end Sweep.Value
