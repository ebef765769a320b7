import Sweep.Conversion.Directive
import Sweep.Document.Value
import Sweep.Files.Refusal
import Sweep.Key.Token
import Sweep.Text.Quoted
import Sweep.Toml.Datetime

/-!
# Faults

Everything that can end a run, as **causes**: each constructor holds what was wrong, and
`Fault.message` alone knows the words. A key is shown in its canonical form, any other text between
quotes.

Some faults have a further cause of their own, which a message line appends after a colon:
`Fault.causes`.
-/

set_option autoImplicit false

namespace Sweep

/-- Why a text is no template. -/
inductive TemplateFault where
  /-- a brace that belongs to no placeholder -/
  | unbalancedBraces
  /-- a placeholder whose key text is no key -/
  | malformedKey (text : String) (why : Key.Malformation)
  /-- a placeholder whose format is no conversion -/
  | malformedConversion (text : String) (why : Conversion.Malformation)
deriving DecidableEq, Repr

/-- A verb that does not apply to the kind of value it was given. -/
structure Mismatch where
  verb : Verb
  kind : Kind
deriving DecidableEq, Repr

/-- Why a document cannot be written in a format. -/
inductive EncodeFault where
  /-- a null, in a format that has none -/
  | null
  /-- a date or time whose text is neither -/
  | malformedDatetime (why : Toml.Datetime.Malformation)
deriving DecidableEq, Repr

/-- What ends a run. -/
inductive Fault where
  | malformedKey (text : String) (why : Key.Malformation)
  | duplicateBinding (key : Key)
  | expectedArray (key : Key)
  | lengthMismatch (key : Key) (length : Nat) (bound : Key) (boundLength : Nat)
  | malformedTemplate (text : String) (why : TemplateFault)
  | cannotFormat (key : Key) (format : String) (why : Mismatch)
  | missingSegment (key : Key) (segment : String)
  | notADocument (key : Key) (segment : String)
  | expectedString (key : Key)
  | unsupportedFormat (extension : String)
  | refused (path : String) (why : Files.Refusal)
  | undecodable (path : String)
  | unencodable (path : String) (why : EncodeFault)
deriving DecidableEq, Repr

/-- The words for a malformed key, wherever it stands. -/
def malformedKeyMessage (text : String) (why : Key.Malformation) : String :=
  "malformed key " ++ Text.quote text ++ ": " ++ why.reason

/-- The words for what is wrong with a template. -/
def TemplateFault.reason : TemplateFault → String
  | .unbalancedBraces => "unbalanced braces"
  | .malformedKey text why => malformedKeyMessage text why
  | .malformedConversion text why => "invalid format " ++ Text.quote text ++ ": " ++ why.reason

def Mismatch.reason (m : Mismatch) : String :=
  "verb '%" ++ String.singleton m.verb.letter ++ "' cannot format " ++ m.kind.name

def EncodeFault.reason : EncodeFault → String
  | .null => "null has no TOML representation"
  | .malformedDatetime why => why.reason

namespace Fault

/-- The words of a fault, without its further cause. -/
def message : Fault → String
  | .malformedKey text why => malformedKeyMessage text why
  | .duplicateBinding key => "variable " ++ key.display ++ " is already bound"
  | .expectedArray key => "expected array at key " ++ key.display
  | .lengthMismatch key length bound boundLength =>
    "array length mismatch: " ++ key.display ++ " has " ++ Nat.repr length ++ " values but " ++
      bound.display ++ " has " ++ Nat.repr boundLength
  | .malformedTemplate text why =>
    "template syntax error in " ++ Text.quote text ++ ": " ++ why.reason
  | .cannotFormat key format why =>
    "cannot format " ++ key.display ++ " with " ++ Text.quote format ++ ": " ++ why.reason
  | .missingSegment key segment =>
    "key " ++ key.display ++ " not found: no segment " ++ Text.quote segment
  | .notADocument key segment =>
    "not a nested document at segment " ++ Text.quote segment ++ " of key " ++ key.display
  | .expectedString key => "expected string at key " ++ key.display
  | .unsupportedFormat extension => "unsupported file format " ++ Text.quote extension
  | .refused path _ => "IO error when accessing `" ++ path ++ "`"
  | .undecodable path => "failed to decode `" ++ path ++ "`"
  | .unencodable path _ => "failed to encode `" ++ path ++ "`"

/-- The words of the causes behind a fault, the nearest first. -/
def causes : Fault → List String
  | .refused _ why => [why.words]
  | .unencodable _ why => [why.reason]
  | _ => []

end Fault

end Sweep
