import Sweep.Key

/-!
# The tokens of a key

A key text is segments, dots and commas, with white space anywhere between them. A segment is a run
of digits, an identifier, or text between double quotes. Runs are **greedy**: a segment ends only
where the next character cannot go on with it, so two segments never meet without something between
them unless one of them is quoted or their characters differ in kind.

`tokens` gives the tokens up to the first place that is no token, together with what is wrong there.
The grammar of keys (`Sweep.Key.Reader`) decides whether that place is ever reached.
-/

set_option autoImplicit false

namespace Sweep.Key

/-- What can be wrong with the text of a key. -/
inductive Malformation where
  /-- a character that opens no token -/
  | unexpectedCharacter
  /-- a quoted segment cut off by the end of the text or of the line -/
  | unterminatedQuote
  /-- two double quotes with nothing between them -/
  | emptyQuote
  /-- a backslash that starts no escape -/
  | invalidEscape
  /-- no token at all -/
  | emptyKey
  /-- a separator where a segment must stand, or the end of the text there -/
  | missingSegment
  /-- two segments next to each other -/
  | missingSeparator
  /-- a list of keys where one key must stand -/
  | tooManyKeys
deriving DecidableEq, Repr

/-- The words of a message for a malformed key. -/
def Malformation.reason : Malformation → String
  | .unexpectedCharacter => "unexpected character"
  | .unterminatedQuote => "unterminated quoted segment"
  | .emptyQuote => "empty quoted segment"
  | .invalidEscape => "invalid escape sequence"
  | .emptyKey => "empty key"
  | .missingSegment => "missing segment"
  | .missingSeparator => "missing separator"
  | .tooManyKeys => "too many keys"

/-- A token of a key text. -/
inductive Token where
  | segment (text : String)
  | dot
  | comma
deriving DecidableEq, Repr

/-- The character that a one-letter escape stands for. -/
def letterEscape? (c : Char) : Option Char :=
  if c = '"' ∨ c = '\\' ∨ c = '\'' then some c
  else if c = 'n' then some '\n'
  else if c = 't' then some '\t'
  else if c = 'r' then some '\r'
  else if c = 'a' then some '\x07'
  else if c = 'b' then some '\x08'
  else if c = 'f' then some '\x0c'
  else if c = 'v' then some '\x0b'
  else none

/-- The character that an escape stands for, read after its backslash, and the text after it. -/
def readEscape : List Char → Option (Char × List Char)
  | [] => none
  | c :: rest =>
    if c = 'u' then Text.readHexChar 4 rest
    else if c = 'U' then Text.readHexChar 8 rest
    else (letterEscape? c).map (·, rest)

theorem length_readEscape {cs rest : List Char} {x : Char} (h : readEscape cs = some (x, rest)) :
    rest.length < cs.length := by
  unfold readEscape at h
  split at h
  · cases h
  · rename_i c tail
    rw [List.length_cons]
    split at h
    · have := Text.length_readHexChar h; omega
    · split at h
      · have := Text.length_readHexChar h; omega
      · obtain ⟨_, -, hx⟩ := Option.map_eq_some_iff.1 h
        cases hx
        exact Nat.lt_succ_self _

/-- The characters of a quoted segment up to its closing quote, and the text after that quote. -/
def readQuoted : List Char → Except Malformation (List Char × List Char)
  | [] => .error .unterminatedQuote
  | '\n' :: _ => .error .unterminatedQuote
  | '"' :: rest => .ok ([], rest)
  | '\\' :: rest =>
    match h : readEscape rest with
    | none => .error .invalidEscape
    | some (c, rest') =>
      have := length_readEscape h
      (readQuoted rest').map fun (text, after) => (c :: text, after)
  | c :: rest => (readQuoted rest).map fun (text, after) => (c :: text, after)
termination_by cs => cs.length

/-- The quoted segment after an opening quote; there must be something between the quotes. -/
def readQuotedSegment (cs : List Char) : Except Malformation (Token × List Char) :=
  match readQuoted cs with
  | .error fault => .error fault
  | .ok ([], _) => .error .emptyQuote
  | .ok (text, rest) => .ok (.segment (String.ofList text), rest)

/-- The token that opens with `c`, and the text after it. -/
def readToken (c : Char) (rest : List Char) : Except Malformation (Token × List Char) :=
  if c = '.' then .ok (.dot, rest)
  else if c = ',' then .ok (.comma, rest)
  else if c = '"' then readQuotedSegment rest
  else if Text.isAsciiDigit c then
    .ok (.segment (String.ofList (c :: rest.takeWhile Text.isAsciiDigit)),
      rest.dropWhile Text.isAsciiDigit)
  else if isIdentifierStart c then
    .ok (.segment (String.ofList (c :: rest.takeWhile isIdentifierPart)),
      rest.dropWhile isIdentifierPart)
  else .error .unexpectedCharacter

theorem length_readQuoted {cs text rest : List Char} (h : readQuoted cs = .ok (text, rest)) :
    rest.length < cs.length := by
  fun_induction readQuoted cs generalizing text rest with
  | case1 => cases h
  | case2 => cases h
  | case3 => cases h; simp
  | case4 => cases h
  | case5 r c r' he hl ih =>
    cases hq : readQuoted r' with
    | error f => rw [hq] at h; cases h
    | ok p =>
      rw [hq] at h; cases h
      have := ih hq
      simp only [List.length_cons]; omega
  | case6 c r _ _ _ ih =>
    cases hq : readQuoted r with
    | error f => rw [hq] at h; cases h
    | ok p =>
      rw [hq] at h; cases h
      have := ih hq
      simp only [List.length_cons]; omega

theorem length_readToken {c : Char} {rest after : List Char} {t : Token}
    (h : readToken c rest = .ok (t, after)) : after.length ≤ rest.length := by
  unfold readToken at h
  repeat' split at h
  · cases h; exact Nat.le_refl _
  · cases h; exact Nat.le_refl _
  · unfold readQuotedSegment at h
    split at h
    · cases h
    · cases h
    · rename_i hq; cases h; exact Nat.le_of_lt (length_readQuoted hq)
  · cases h; exact (List.dropWhile_suffix _).length_le
  · cases h; exact (List.dropWhile_suffix _).length_le
  · cases h

/-- The tokens of a text, up to the first place that is no token; what is wrong there, if anything
is. -/
def tokens (cs : List Char) : List Token × Option Malformation :=
  match hb : cs.dropWhile Text.isBlank with
  | [] => ([], none)
  | c :: rest =>
    match ht : readToken c rest with
    | .error fault => ([], some fault)
    | .ok (token, after) =>
      have : after.length < cs.length := by
        have h₁ := length_readToken ht
        have h₂ : (cs.dropWhile Text.isBlank).length ≤ cs.length :=
          (List.dropWhile_suffix _).length_le
        rw [hb, List.length_cons] at h₂
        omega
      let (more, fault) := tokens after
      (token :: more, fault)
termination_by cs.length

end Sweep.Key
