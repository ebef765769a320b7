import Sweep.FileFormat
import Sweep.Files.Tree
import Sweep.Plan

/-!
# Delivery

What happens to an expanded document. Its values to render are replaced by what they render to, one
after the other, so a later one sees the earlier results; then the path is rendered from the
document as it now is, and the document is delivered there. In the end the values that were replaced
are put back.

An `Outlet` is where deliveries go. A dry one only asks whether the path names a format; a real one
stores the document. A path is announced and recorded once the delivery succeeded.
-/

set_option autoImplicit false

namespace Sweep

/-- Where documents are delivered. -/
structure Outlet (m : Type → Type) where
  /-- deliver a document to a path -/
  save : String → Document → m Outcome
  /-- tell of a path that was delivered to -/
  announce : String → m Unit
  /-- keep account of a path that was delivered to -/
  record : String → m Unit

namespace Delivery

/-- The outcome of rendering values: what they were, and the document with what they render to. -/
structure Rendered where
  outcome : Outcome
  replaced : List (Key × Value)
  document : Document

def renderAt (doc : Document) (key : Key) : Except Fault String :=
  match doc.get key with
  | .error fault => .error fault
  | .ok (.text source) =>
    match Template.compile source with
    | .error fault => .error fault
    | .ok template => template.render doc
  | .ok _ => .error (.expectedString key)

/-- Replace the values at keys by what they render to. -/
def renderAll : List Key → Document → Rendered
  | [], doc => ⟨.ok (), [], doc⟩
  | key :: rest, doc =>
    match renderAt doc key with
    | .error fault => ⟨.error fault, [], doc⟩
    | .ok text =>
      match doc.replace key (.text text) with
      | .error fault => ⟨.error fault, [], doc⟩
      | .ok (old, doc) =>
        let rendered := renderAll rest doc
        { rendered with replaced := (key, old) :: rendered.replaced }

variable {m : Type → Type} [Monad m]

/-- Deliver a document to the path that it renders to. -/
def deliver (plan : Plan) (outlet : Outlet m) (doc : Document) : m Outcome :=
  match plan.output.render doc with
  | .error fault => pure (.error fault)
  | .ok path => do
    match ← outlet.save path doc with
    | .error fault => pure (.error fault)
    | .ok () =>
      outlet.announce path
      outlet.record path
      pure (.ok ())

/-- Render and deliver a document, and give it back as it was. -/
def emit (plan : Plan) (outlet : Outlet m) : Sink m := fun doc => do
  let rendered := renderAll plan.render doc
  let outcome ← match rendered.outcome with
    | .error fault => pure (.error fault)
    | .ok () => deliver plan outlet rendered.document
  let (restored, doc) := Expansion.putBack rendered.replaced.reverse rendered.document
  pure (Expansion.both outcome restored, doc)

/-- Deliver nothing, and only ask whether the path names a format. -/
def drySave (path : String) (_doc : Document) : m Outcome :=
  match FileFormat.ofPath path with
  | .error fault => pure (.error fault)
  | .ok _ => pure (.ok ())

end Delivery

/-- Files in memory, and the account of what was delivered. -/
structure Site where
  files : Files.Tree
  announced : List String
  recorded : List String

namespace Site

def ofTree (files : Files.Tree) : Site := ⟨files, [], []⟩

def storage : Storage (StateM Site) where
  read path := fun site => (site.files.read path, site)
  makeDirectories path := fun site =>
    let (result, files) := site.files.makeDirectories path
    (result, { site with files })
  write path text := fun site =>
    match site.files.write path text with
    | .ok files => (.ok (), { site with files })
    | .error why => (.error why, site)

/-- The outlet of a site: a real one stores documents in its files. -/
def outlet (dry : Bool) : Outlet (StateM Site) where
  save := if dry then Delivery.drySave else FileFormat.store storage
  announce path := modify fun site => { site with announced := site.announced ++ [path] }
  record path := modify fun site => { site with recorded := site.recorded ++ [path] }

end Site

end Sweep
