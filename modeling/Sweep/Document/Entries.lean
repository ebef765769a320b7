import Sweep.Document.Value

/-!
# Entries of a table

A table is a list of named values. The operations here see the **first** entry of a name, which is
the only one in any table that a reader produces: `put` changes the value of a name in its place and
adds a new name at the end, `assign` changes without ever adding.
-/

set_option autoImplicit false

namespace Sweep.Entries

variable {α : Type}

/-- The value of a name. -/
def find? (name : String) : List (String × α) → Option α
  | [] => none
  | (other, value) :: rest => if other = name then some value else find? name rest

/-- The entries with the value of a name changed in its place; the same entries if the name is
absent. -/
def assign (name : String) (new : α) : List (String × α) → List (String × α)
  | [] => []
  | (other, value) :: rest =>
    if other = name then (other, new) :: rest else (other, value) :: assign name new rest

/-- The entries with the value of a name changed in its place, or added at the end. -/
def put (name : String) (new : α) : List (String × α) → List (String × α)
  | [] => [(name, new)]
  | (other, value) :: rest =>
    if other = name then (other, new) :: rest else (other, value) :: put name new rest

/-- The entries without the first one of a name. -/
def erase (name : String) : List (String × α) → List (String × α)
  | [] => []
  | (other, value) :: rest => if other = name then rest else (other, value) :: erase name rest

end Sweep.Entries
