import Sweep.Files.Path
import Sweep.Files.Refusal

/-!
# A tree of files

A file system as far as a run can tell: **places**, each a file with its content or a directory, and
the place of the working directory among them. There are no links, so `..` leads back the way one
came, and at the root it stays there.

A path that starts with a slash is followed from the root, any other one from the working directory,
step by step, and each step must start from a directory. Making directories makes the missing ones
from the outermost inward and keeps what it made when it fails further in.
-/

set_option autoImplicit false

namespace Sweep.Files

/-- A place: the names on the way to it from the root, outermost first. -/
abbrev Place := List Path.Piece

/-- What is at a place. -/
inductive Entry where
  | file (content : String)
  | directory
deriving DecidableEq, Repr

/-- The place where a path starts, in a working directory. -/
def startOf (home : Place) (path : String) : Place := if Path.isAbsolute path then [] else home

/-- The files and directories, and the place of the working directory. -/
structure Tree where
  home : Place
  entries : List (Place × Entry)
deriving DecidableEq, Repr

namespace Tree

/-- Nothing but the root, which is the working directory. -/
def empty : Tree := ⟨[], []⟩

/-- What is at a place. The working directory and the directories that it lies in are always
there. -/
def find? (tree : Tree) (place : Place) : Option Entry :=
  if place <+: tree.home then some .directory
  else (tree.entries.find? (·.1 == place)).map (·.2)

/-- The entries with one place given a new entry, in its old position if it had one. -/
def putEntry (place : Place) (entry : Entry) : List (Place × Entry) → List (Place × Entry)
  | [] => [(place, entry)]
  | (other, old) :: rest =>
    if other = place then (place, entry) :: rest else (other, old) :: putEntry place entry rest

/-- The tree with an entry at a place, whatever was there. -/
def put (tree : Tree) (place : Place) (entry : Entry) : Tree :=
  { tree with entries := putEntry place entry tree.entries }

def nameLimit : Nat := 255

/-- How many bytes a path must stay below. -/
def pathLimit : Nat := 4096

def byteCount (piece : Path.Piece) : Nat := (String.ofList piece).utf8ByteSize

def checkPath (path : String) : Except Refusal Unit :=
  if path.toList.contains '\x00' then .error .zeroCharacter
  else if path = "" then .error .absent
  else if pathLimit ≤ path.utf8ByteSize then .error .nameTooLong
  else .ok ()

def checkDirectory (tree : Tree) (place : Place) : Except Refusal Unit :=
  match tree.find? place with
  | none => .error .absent
  | some (.file _) => .error .notDirectory
  | some .directory => .ok ()

/-- The place that steps lead to from `here`. Every step starts from a directory; where the last one
leads need not exist. -/
def follow (tree : Tree) (here : Place) : List Path.Piece → Except Refusal Place
  | [] => .ok here
  | step :: rest => do
    tree.checkDirectory here
    if Path.isIdle step then follow tree here rest
    else if step = ['.', '.'] then follow tree here.dropLast rest
    else if nameLimit < byteCount step then .error .nameTooLong
    else follow tree (here ++ [step]) rest

def locate (tree : Tree) (path : String) : Except Refusal Entry := do
  checkPath path
  let place ← tree.follow (startOf tree.home path) (Path.pieces path.toList)
  match tree.find? place with
  | some entry => .ok entry
  | none => .error .absent

def isDirectory (tree : Tree) (path : String) : Bool :=
  match tree.locate path with
  | .ok .directory => true
  | _ => false

def read (tree : Tree) (path : String) : Except Refusal String := do
  match ← tree.locate path with
  | .file content => .ok content
  | .directory => .error .isDirectory

/-- The last step of a path that names something, the steps in front of it, and whether a slash
follows. -/
def lastStep (path : String) : Option (Path.Piece × List Path.Piece × Bool) :=
  let pieces := (Path.pieces path.toList).reverse
  match pieces.dropWhile (· == []) with
  | [] => none
  | last :: before => some (last, before.reverse, pieces.head? == some [])

def write (tree : Tree) (path : String) (content : String) : Except Refusal Tree := do
  checkPath path
  match lastStep path with
  | none => .error .isDirectory
  | some (last, before, slash) =>
    let directory ← tree.follow (startOf tree.home path) before
    tree.checkDirectory directory
    if slash || last = ['.'] || last = ['.', '.'] then .error .isDirectory
    else if nameLimit < byteCount last then .error .nameTooLong
    else
      match tree.find? (directory ++ [last]) with
      | some .directory => .error .isDirectory
      | _ => .ok (tree.put (directory ++ [last]) (.file content))

def makeDirectory (tree : Tree) (path : String) : Except Refusal Tree := do
  checkPath path
  match lastStep path with
  | none => .error .exists
  | some (last, before, _) =>
    let directory ← tree.follow (startOf tree.home path) before
    tree.checkDirectory directory
    if last = ['.'] || last = ['.', '.'] then .error .exists
    else if nameLimit < byteCount last then .error .nameTooLong
    else
      match tree.find? (directory ++ [last]) with
      | some _ => .error .exists
      | none => .ok (tree.put (directory ++ [last]) .directory)

/-- The path of reversed steps. -/
def pathOf (steps : List Path.Piece) : String :=
  match steps with
  | [[]] => "/"
  | steps => String.ofList (Path.join steps.reverse)

/-- Make one directory, or leave the one that is there. -/
def ensureDirectory (tree : Tree) (path : String) : Except Refusal Tree :=
  match tree.makeDirectory path with
  | .ok tree => .ok tree
  | .error why => if why ≠ .absent ∧ tree.isDirectory path then .ok tree else .error why

/-- Make the directory at reversed steps and those that it lies in, as far as they are missing. -/
def ensureSteps (tree : Tree) : List Path.Piece → Except Refusal Unit × Tree
  | [] => (.ok (), tree)
  | last :: before =>
    match tree.ensureDirectory (pathOf (last :: before)) with
    | .ok tree => (.ok (), tree)
    | .error .absent =>
      match ensureSteps tree before with
      | (.error why, tree) => (.error why, tree)
      | (.ok (), tree) =>
        match tree.makeDirectory (pathOf (last :: before)) with
        | .ok tree => (.ok (), tree)
        | .error why =>
          (if tree.isDirectory (pathOf (last :: before)) then .ok () else .error why, tree)
    | .error why => (.error why, tree)

/-- Make the directory at a path and those that it lies in, as far as they are missing. The path
ends in a step, as that of a parent does. -/
def makeDirectories (tree : Tree) (path : String) : Except Refusal Unit × Tree :=
  tree.ensureSteps (Path.steps path).reverse

/-- A place as it is named in the working directory, and from the root if it lies elsewhere. -/
def nameOf (home place : Place) : String :=
  if home <+: place then String.ofList (Path.join (place.drop home.length))
  else String.ofList ('/' :: Path.join place)

def files (tree : Tree) : List (String × String) :=
  tree.entries.filterMap fun (place, entry) =>
    match entry with
    | .file content => some (nameOf tree.home place, content)
    | .directory => none

def directories (tree : Tree) : List String :=
  tree.entries.filterMap fun (place, entry) =>
    match entry with
    | .file _ => none
    | .directory => some (nameOf tree.home place)

/-- The tree with one more file in the working directory, and the directories it lies in. -/
def addFile (tree : Tree) (path : String) (content : String) : Tree :=
  let names := (Path.pieces path.toList).filter (!Path.isIdle ·)
  let tree := (List.range names.length).foldl (fun tree depth =>
    if depth = 0 then tree else tree.put (tree.home ++ names.take depth) .directory) tree
  tree.put (tree.home ++ names) (.file content)

/-- Files in a working directory. -/
def ofFilesIn (home : Place) (files : List (String × String)) : Tree :=
  files.foldl (fun tree (path, content) => tree.addFile path content) { empty with home }

/-- Files in the root, which is the working directory. -/
def ofFiles (files : List (String × String)) : Tree := ofFilesIn [] files

end Tree

end Sweep.Files
