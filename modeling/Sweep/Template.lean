import Sweep.Conversion.Spelling
import Sweep.Document
import Sweep.Template.Placeholder

/-!
# Templates

A template is literal text around placeholders. It is compiled once, which finds every fault of its
text, and then rendered against as many documents as needed. Rendering is **one pass**: what a
placeholder yields is never looked at again, braces or not.

Of several faults in one text the leftmost is reported; within one stretch of text, stray braces
come before the placeholder that follows them.
-/

set_option autoImplicit false

namespace Sweep

/-- A piece of a template. -/
inductive Template.Part where
  | literal (text : List Char)
  | placeholder (key : Key) (format : Option (String × Conversion))
deriving DecidableEq, Repr

/-- A compiled template. -/
structure Template where
  parts : List Template.Part
deriving DecidableEq, Repr

namespace Template

/-- The parts that a stretch of literal text makes; it may hold no brace. -/
def compileLiteral (text : List Char) : Except TemplateFault (List Part) :=
  if text.all isFormatChar then .ok (if text.isEmpty then [] else [.literal text])
  else .error .unbalancedBraces

def compilePlaceholder (p : Placeholder) : Except TemplateFault Part :=
  match Key.read p.key with
  | .error why => .error (.malformedKey p.key why)
  | .ok key =>
    match p.format with
    | none => .ok (.placeholder key none)
    | some format =>
      match Conversion.read format with
      | .error why => .error (.malformedConversion format why)
      | .ok conversion => .ok (.placeholder key (some (format, conversion)))

/-- The parts of a text that was cut at its placeholders. -/
def compileMarked (tail : List Char) :
    List (List Char × Placeholder) → Except TemplateFault (List Part)
  | [] => compileLiteral tail
  | (literal, placeholder) :: rest => do
    let before ← compileLiteral literal
    let part ← compilePlaceholder placeholder
    let after ← compileMarked tail rest
    return before ++ part :: after

def compile (text : String) : Except Fault Template :=
  let s := scan text.toList
  match compileMarked s.tail s.marked with
  | .ok parts => .ok ⟨parts⟩
  | .error why => .error (.malformedTemplate text why)

def Part.render (doc : Document) : Part → Except Fault (List Char)
  | .literal text => .ok text
  | .placeholder key none =>
    match doc.get key with
    | .ok value => .ok value.display
    | .error fault => .error fault
  | .placeholder key (some (format, conversion)) =>
    match doc.get key with
    | .ok value =>
      match conversion.apply value with
      | .ok text => .ok text
      | .error why => .error (.cannotFormat key format why)
    | .error fault => .error fault

/-- What parts yield one after the other; the leftmost fault ends it. -/
def renderParts (doc : Document) : List Part → Except Fault (List Char)
  | [] => .ok []
  | part :: rest => do
    let text ← part.render doc
    let more ← renderParts doc rest
    return text ++ more

/-- The text that a template makes of a document. -/
def render (t : Template) (doc : Document) : Except Fault String :=
  (renderParts doc t.parts).map String.ofList

def Part.key? : Part → Option Key
  | .literal _ => none
  | .placeholder key _ => some key

/-- The keys of the placeholders in their order, repeats kept. -/
def keys (t : Template) : List Key := t.parts.filterMap Part.key?

end Template

end Sweep
