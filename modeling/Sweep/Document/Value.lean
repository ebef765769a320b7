import Sweep.Number.Double
import Sweep.Number.Whole

/-!
# Values

What a configuration document is made of. A **table** keeps its entries in the order in which they
were first met; each name occurs once, which the readers of both file formats see to.

Dates and times have no constructor of their own. A date or time is a table with the single entry
`datetimeField`, whose value is its text; `Value.datetime?` recognises one. A format that knows
dates writes them as such, any other use sees the text.
-/

set_option autoImplicit false

namespace Sweep

/-- A value of a document. -/
inductive Value where
  | null
  | bool (value : Bool)
  | whole (value : Whole)
  | double (value : Double)
  | text (value : String)
  | list (items : List Value)
  | table (entries : List (String × Value))
deriving Inhabited

/-- What kind of value a message speaks of. -/
inductive Kind where
  | null
  | bool
  | double
  | whole
  | text
  | list
  | table
deriving DecidableEq, Repr

def Kind.name : Kind → String
  | .null => "null"
  | .bool => "bool"
  | .double => "float"
  | .whole => "integer"
  | .text => "string"
  | .list => "array"
  | .table => "table"

namespace Value

def kind : Value → Kind
  | .null => .null
  | .bool _ => .bool
  | .whole _ => .whole
  | .double _ => .double
  | .text _ => .text
  | .list _ => .list
  | .table _ => .table

/-- The entry that marks a table as a date or time. -/
def datetimeField : String := "$__toml_private_datetime"

/-- The text of a date or time, if the value is one. -/
def datetime? : Value → Option String
  | .table [(name, .text stamp)] => if name = datetimeField then some stamp else none
  | _ => none

def ofDatetime (text : String) : Value := .table [(datetimeField, .text text)]

end Value

end Sweep
