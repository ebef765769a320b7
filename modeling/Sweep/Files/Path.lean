/-!
# Paths

A path is text, and it is kept as it was spelled. For the questions asked about it, it is cut at its
slashes. Slashes at the end, doubled slashes and single dots name no further step, except for a
single dot at the very front. With a slash in front a path starts at the root, otherwise at the
working directory.
-/

set_option autoImplicit false

namespace Sweep.Files.Path

/-- What stands between two slashes. -/
abbrev Piece := List Char

def pieces : List Char → List Piece
  | [] => [[]]
  | c :: rest =>
    if c = '/' then [] :: pieces rest
    else
      match pieces rest with
      | [] => [[c]]
      | piece :: more => (c :: piece) :: more

def join : List Piece → List Char
  | [] => []
  | [last] => last
  | first :: rest => first ++ '/' :: join rest

/-- A piece that names no step. -/
def isIdle (piece : Piece) : Bool := piece == [] || piece == ['.']

/-- Whether a path starts at the root. -/
def isAbsolute (path : String) : Bool := path.toList.head? == some '/'

/-- Reversed pieces without idle ones at the end of the path; the first piece of the path stays. -/
def trimmed : List Piece → List Piece
  | last :: before :: rest =>
    if isIdle last then trimmed (before :: rest) else last :: before :: rest
  | pieces => pieces

/-- The pieces from the last step back to the front. -/
def reversed (path : String) : List Piece := trimmed (pieces path.toList).reverse

/-- The steps of a path from the front. An empty first piece stands for the root. -/
def steps (path : String) : List Piece :=
  match pieces path.toList with
  | [] => []
  | [[]] => []
  | first :: rest => first :: rest.filter (!isIdle ·)

/-- The path to the directory of the last step, as spelled; nothing for an empty path and for the
root. -/
def parent? (path : String) : Option String :=
  match reversed path with
  | [] => none
  | [[]] => none
  | [_] => some ""
  | _ :: before =>
    match trimmed before with
    | [[]] => some "/"
    | before => some (String.ofList (join before.reverse))

/-- The name of the last step; a dot or two dots are no name. -/
def fileName? (path : String) : Option Piece :=
  match reversed path with
  | [] => none
  | last :: _ => if isIdle last || last == ['.', '.'] then none else some last

/-- The text behind the last dot of the file name, if there is something in front of that dot. -/
def extension? (path : String) : Option (List Char) :=
  match fileName? path with
  | none => none
  | some name =>
    let behind := (name.reverse.takeWhile (· != '.')).reverse
    let front := name.length - behind.length - 1
    if name.contains '.' && 0 < front then some behind else none

end Sweep.Files.Path
