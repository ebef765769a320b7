import Sweep.Expansion
import Sweep.Template

/-!
# Plans

A **plan** is what one run does: the template of the paths to generate, the keys whose arrays are
expanded, and the keys whose values are templates of their own, rendered in every generated
document.

The keys to expand are the placeholders of the path, one per bind group. Every array that the path
refers to is expanded, and no other.
-/

set_option autoImplicit false

namespace Sweep

/-- A run, before it meets a document. -/
structure Plan where
  /-- the paths of the generated files -/
  output : Template
  /-- the keys to expand, one per bind group -/
  expand : List Key
  /-- the keys whose values are templates, each once -/
  render : List Key
  bindings : Bindings

namespace Plan

/-- Keys without repeats, in the order of their first appearance. -/
def distinct : (seen : List Key) → List Key → List Key
  | seen, [] => seen
  | seen, key :: rest => distinct (if seen.contains key then seen else seen ++ [key]) rest

/-- The plan for an output path, keys to render and bind groups. -/
def make (output : String) (render : List Key) (bindings : Bindings) : Except Fault Plan :=
  match Template.compile output with
  | .error fault => .error fault
  | .ok template =>
    match Template.extractKeys output with
    | .error fault => .error fault
    | .ok keys => .ok ⟨template, bindings.drivers keys, distinct [] render, bindings⟩

/-- A value must be a template, for the key it was found at. -/
def checkTemplate (key : Key) : Value → Outcome
  | .text source =>
    match Template.compile source with
    | .ok _ => .ok ()
    | .error fault => .error fault
  | _ => .error (.expectedString key)

/-- Every one of some values must be a template. -/
def checkTemplates (key : Key) : List Value → Outcome
  | [] => .ok ()
  | value :: rest =>
    match checkTemplate key value with
    | .error fault => .error fault
    | .ok () => checkTemplates key rest

/-- The value at each of some keys must be a template or an array of templates. -/
def checkKeys (doc : Document) : List Key → Outcome
  | [] => .ok ()
  | key :: rest =>
    match doc.get key with
    | .error fault => .error fault
    | .ok value =>
      match (match value with
        | .list values => checkTemplates key values
        | value => checkTemplate key value) with
      | .error fault => .error fault
      | .ok () => checkKeys doc rest

/-- Whether the values to render are templates, asked before anything is written. -/
def check (plan : Plan) (doc : Document) : Outcome := checkKeys doc plan.render

/-- Hand every expanded document to a sink. -/
def run {m : Type → Type} [Monad m] (plan : Plan) (sink : Sink m) : Sink m :=
  Expansion.expand sink plan.bindings plan.expand

end Plan

end Sweep
