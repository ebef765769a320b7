import Sweep.Fault
import Sweep.Key.Reader

/-!
# Finding placeholders

A placeholder is `{key}` or `{key|format}`. The key text holds no brace and no bar, the format text
no brace, and neither is empty. `scan` goes through a text from left to right and takes a
placeholder wherever one begins; what lies between them is literal text, stray braces included.
Quotes mean nothing here: a brace or a bar inside a quoted segment ends the key text all the same.
-/

set_option autoImplicit false

namespace Sweep.Template

/-- The texts of a placeholder. -/
structure Placeholder where
  key : String
  format : Option String
deriving DecidableEq, Repr

/-- A character of a format text: any but a brace. -/
def isFormatChar (c : Char) : Bool := c != '\x7b' && c != '\x7d'

/-- A character of a key text: any but a brace or a bar. -/
def isKeyChar (c : Char) : Bool := isFormatChar c && c != '|'

/-- The rest of a placeholder after its key text, and the text after it. -/
def readFormat (key : String) : List Char → Option (Placeholder × List Char)
  | '\x7d' :: rest => some (⟨key, none⟩, rest)
  | '|' :: rest =>
    match rest.dropWhile isFormatChar with
    | '\x7d' :: after =>
      let format := rest.takeWhile isFormatChar
      if format.isEmpty then none else some (⟨key, some (String.ofList format)⟩, after)
    | _ => none
  | _ => none

/-- The placeholder after an opening brace, and the text after it. -/
def readPlaceholder (cs : List Char) : Option (Placeholder × List Char) :=
  match cs.takeWhile isKeyChar with
  | [] => none
  | key => readFormat (String.ofList key) (cs.dropWhile isKeyChar)

theorem length_readFormat {key : String} {cs rest : List Char} {p : Placeholder}
    (h : readFormat key cs = some (p, rest)) : rest.length < cs.length := by
  unfold readFormat at h
  split at h
  · cases h; simp
  · rename_i after
    split at h
    · rename_i hd
      dsimp only at h
      split at h
      · cases h
      cases h
      have : (after.dropWhile isFormatChar).length ≤ after.length :=
        (List.dropWhile_suffix _).length_le
      rw [hd, List.length_cons] at this
      simp only [List.length_cons]; omega
    · cases h
  · cases h

theorem length_readPlaceholder {cs rest : List Char} {p : Placeholder}
    (h : readPlaceholder cs = some (p, rest)) : rest.length < cs.length := by
  unfold readPlaceholder at h
  split at h
  · cases h
  · have h₁ := length_readFormat h
    have h₂ : (cs.dropWhile isKeyChar).length ≤ cs.length := (List.dropWhile_suffix _).length_le
    omega

/-- A text cut at its placeholders: each with the literal text in front of it, and the literal text
at the end. -/
structure Scan where
  marked : List (List Char × Placeholder)
  tail : List Char
deriving DecidableEq, Repr

namespace Scan

/-- The same cut with one more literal character in front. -/
def addLiteral (c : Char) : Scan → Scan
  | ⟨[], tail⟩ => ⟨[], c :: tail⟩
  | ⟨(literal, placeholder) :: more, tail⟩ => ⟨(c :: literal, placeholder) :: more, tail⟩

/-- The same cut with one more placeholder in front. -/
def addPlaceholder (p : Placeholder) (s : Scan) : Scan := ⟨([], p) :: s.marked, s.tail⟩

end Scan

/-- A text cut at its placeholders, from left to right. -/
def scan : List Char → Scan
  | [] => ⟨[], []⟩
  | c :: rest =>
    if c = '\x7b' then
      match h : readPlaceholder rest with
      | some (placeholder, after) =>
        have := length_readPlaceholder h
        (scan after).addPlaceholder placeholder
      | none => (scan rest).addLiteral c
    else (scan rest).addLiteral c
termination_by cs => cs.length

/-- The keys of the placeholders of a text, each once, in the order of their first appearance; the
first key text that is no key is a fault. -/
def keysOfMarked : (seen : List Key) → List (List Char × Placeholder) → Except Fault (List Key)
  | seen, [] => .ok seen
  | seen, (_, placeholder) :: rest =>
    match Key.parse placeholder.key with
    | .error fault => .error fault
    | .ok key => keysOfMarked (if seen.contains key then seen else seen ++ [key]) rest

/-- The keys that a text refers to, whether or not it is a template. -/
def extractKeys (text : String) :
    Except Fault (List Key) := keysOfMarked [] (scan text.toList).marked

end Sweep.Template
