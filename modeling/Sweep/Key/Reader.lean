import Sweep.Fault
import Sweep.Key.Token

/-!
# Reading keys

A **key set** is a list of keys with commas between them, and a key is a list of segments with dots
between them. Reading alternates between two expectations: a segment, then a separator or the end.
The first thing that meets neither decides the fault, and a place that is no token counts only when
the reading arrives there.

`readSet` and `read` say what is wrong with a text; `parseSet` and `parse` make it the fault that
names the text.
-/

set_option autoImplicit false

namespace Sweep.Key

/-- The keys that the rest of the tokens completes, where a segment must come next: `done` holds the
finished keys and `path` the segments of the current one. `fault` stands at the end of the
tokens. -/
def keysOfTokens (fault : Option Malformation) :
    (done : List Key) → (path : List String) → List Token → Except Malformation (List Key)
  | done, path, [] =>
    match fault with
    | some f => .error f
    | none => .error (if done.isEmpty && path.isEmpty then .emptyKey else .missingSegment)
  | done, path, [.segment s] =>
    match fault with
    | some f => .error f
    | none => .ok (done ++ [⟨path ++ [s]⟩])
  | done, path, .segment s :: .dot :: rest => keysOfTokens fault done (path ++ [s]) rest
  | done, path, .segment s :: .comma :: rest => keysOfTokens fault (done ++ [⟨path ++ [s]⟩]) [] rest
  | _, _, .segment _ :: .segment _ :: _ => .error .missingSeparator
  | _, _, _ :: _ => .error .missingSegment

/-- The keys of a comma separated list. -/
def readSet (text : String) : Except Malformation (List Key) :=
  let (tokens, fault) := tokens text.toList
  keysOfTokens fault [] [] tokens

/-- The one key of a text. -/
def read (text : String) : Except Malformation Key :=
  match readSet text with
  | .error fault => .error fault
  | .ok [key] => .ok key
  | .ok [] => .error .emptyKey
  | .ok (_ :: _ :: _) => .error .tooManyKeys

/-- The keys of a comma separated list, or the fault that names the whole text. -/
def parseSet (text : String) :
    Except Fault (List Key) := (readSet text).mapError (.malformedKey text)

/-- The one key of a text, or the fault that names the whole text. -/
def parse (text : String) : Except Fault Key := (read text).mapError (.malformedKey text)

end Sweep.Key
