import Sweep.Document
import Sweep.Files.Path
import Sweep.Json.Plain
import Sweep.Json.Printer
import Sweep.Json.Reader
import Sweep.Text.Lowercase
import Sweep.Toml.Printer
import Sweep.Toml.Reader

/-!
# File formats

A file holds a document in the format that its extension names, in any mixture of cases. Both
formats keep the order of entries. A date or time is one of TOML's own; JSON writes its text.

Storing a document asks for the format and makes the whole text **before** it touches the file
system, so a document that cannot be written leaves no trace.
-/

set_option autoImplicit false

namespace Sweep

/-- A format of configuration files. -/
inductive FileFormat where
  | toml
  | json
deriving DecidableEq, Repr

/-- What a run needs of a file system. -/
structure Storage (m : Type → Type) where
  /-- the content of the file at a path -/
  read : String → m (Except Files.Refusal String)
  /-- make the directory at a path and those that it lies in -/
  makeDirectories : String → m (Except Files.Refusal Unit)
  /-- write the file at a path, over what was in it -/
  write : String → String → m (Except Files.Refusal Unit)

namespace FileFormat

/-- The extension that names a format, in lower case. -/
def extension : FileFormat → String
  | .toml => "toml"
  | .json => "json"

/-- The format that an extension in lower case names. -/
def ofExtension? (extension : String) : Option FileFormat :=
  if extension = FileFormat.toml.extension then some .toml
  else if extension = FileFormat.json.extension then some .json
  else none

/-- The extension of a path in lower case, empty if it has none. -/
def extensionOf (path : String) : String :=
  match Files.Path.extension? path with
  | some cs => Text.lowercase (String.ofList cs)
  | none => ""

def ofPath (path : String) : Except Fault FileFormat :=
  let extension := extensionOf path
  match ofExtension? extension with
  | some format => .ok format
  | none => .error (.unsupportedFormat (if extension = "" then "" else "." ++ extension))

def decode? : FileFormat → String → Option Document
  | .toml, text => (Toml.readTable? text).map (⟨·⟩)
  | .json, text => (Json.readTable? text).map (⟨·⟩)

/-- The text of a document. JSON ends with a line break. -/
def encode : FileFormat → Document → Except EncodeFault String
  | .toml, doc =>
    (Toml.Item.ofEntries doc.entries).map fun items => String.ofList (Toml.documentText items)
  | .json, doc =>
    .ok (String.ofList (Json.pretty 0 (.table (Json.plainEntries doc.entries)) ++ ['\n']))

variable {m : Type → Type} [Monad m]

def load (storage : Storage m) (path : String) : m (Except Fault Document) :=
  match ofPath path with
  | .error fault => pure (.error fault)
  | .ok format => do
    match ← storage.read path with
    | .error why => pure (.error (.refused path why))
    | .ok text =>
      match format.decode? text with
      | some doc => pure (.ok doc)
      | none => pure (.error (.undecodable path))

/-- Write the text of a file, making the directories it lies in. -/
def place (storage : Storage m) (path text : String) : m (Except Fault Unit) := do
  match Files.Path.parent? path with
  | none | some "" =>
    match ← storage.write path text with
    | .error why => pure (.error (.refused path why))
    | .ok () => pure (.ok ())
  | some parent =>
    match ← storage.makeDirectories parent with
    | .error why => pure (.error (.refused parent why))
    | .ok () =>
      match ← storage.write path text with
      | .error why => pure (.error (.refused path why))
      | .ok () => pure (.ok ())

/-- Store a document in the file at a path, in the format of its extension. -/
def store (storage : Storage m) (path : String) (doc : Document) : m (Except Fault Unit) :=
  match ofPath path with
  | .error fault => pure (.error fault)
  | .ok format =>
    match format.encode doc with
    | .error why => pure (.error (.unencodable path why))
    | .ok text => place storage path text

end FileFormat

end Sweep
