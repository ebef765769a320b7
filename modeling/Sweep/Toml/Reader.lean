import Sweep.Toml.Draft
import Sweep.Toml.Name

/-!
# Reading TOML

A text is read in two steps. First it is cut into **statements**, one per line: a key with its
value, the header of a table, or the header of one more element of an array of tables. Then the
statements are carried out on a draft, from the first to the last (`Sweep.Toml.Draft` has the
rules), the draft is finished, and the tables in it that spell dates are resolved.

As in every reader here, a construct is read from where it begins and gives the text after it, or
nothing. Arrays and inline tables nest to a bounded depth, which is what the recursion is on; lists
inside one container are bounded by the length of their text.
-/

set_option autoImplicit false

namespace Sweep.Toml

/-! ## White space and comments -/

def isSpace (c : Char) : Bool := c == ' ' || c == '\t'

def skipSpace (cs : List Char) : List Char := cs.dropWhile isSpace

/-- A character that can stand in a line: no control but the tab. -/
def isLineChar (c : Char) :
    Bool := c == '\t' || (decide (0x20 ≤ c.toNat) && decide (c.toNat ≠ 0x7F))

def afterBreak? : List Char → Option (List Char)
  | '\n' :: rest => some rest
  | '\r' :: '\n' :: rest => some rest
  | _ => none

/-- The text after the end of a line: white space, a comment if there is one, and a break or the
end. -/
def afterLine? (cs : List Char) : Option (List Char) :=
  let cs := match skipSpace cs with
    | '#' :: rest => rest.dropWhile isLineChar
    | cs => cs
  if cs.isEmpty then some [] else afterBreak? cs

/-- The text after white space, breaks and comments; a comment may hold no control character. -/
def skipFiller : (inComment : Bool) → List Char → Option (List Char)
  | _, [] => some []
  | _, '\n' :: rest => skipFiller false rest
  | _, '\r' :: '\n' :: rest => skipFiller false rest
  | true, c :: rest => if isLineChar c then skipFiller true rest else none
  | false, c :: rest =>
    if isSpace c then skipFiller false rest
    else if c = '#' then skipFiller true rest
    else some (c :: rest)

/-- The text after a character that must come next. -/
def after? (c : Char) : List Char → Option (List Char)
  | [] => none
  | other :: rest => if other = c then some rest else none

/-! ## Strings -/

/-- The character of an escape that is one letter. -/
def letterEscape? (c : Char) : Option Char :=
  if c = '"' ∨ c = '\\' then some c
  else if c = 'b' then some '\x08'
  else if c = 't' then some '\t'
  else if c = 'n' then some '\n'
  else if c = 'f' then some '\x0c'
  else if c = 'r' then some '\r'
  else none

/-- The character of an escape, read after its backslash, and the text after it. -/
def readEscape : List Char → Option (Char × List Char)
  | [] => none
  | c :: rest =>
    if c = 'u' then Text.readHexChar 4 rest
    else if c = 'U' then Text.readHexChar 8 rest
    else (letterEscape? c).map (·, rest)

theorem length_readEscape {cs rest : List Char} {x : Char} (h : readEscape cs = some (x, rest)) :
    rest.length < cs.length := by
  unfold readEscape at h
  split at h
  · cases h
  · rw [List.length_cons]
    split at h
    · have := Text.length_readHexChar h; omega
    · split at h
      · have := Text.length_readHexChar h; omega
      · obtain ⟨_, -, hx⟩ := Option.map_eq_some_iff.1 h
        cases hx
        exact Nat.lt_succ_self _

/-- A string in double quotes, after the opening one. -/
def readBasic : List Char → Option (List Char × List Char)
  | [] => none
  | '"' :: rest => some ([], rest)
  | '\\' :: rest =>
    match h : readEscape rest with
    | none => none
    | some (c, rest') =>
      have := length_readEscape h
      (readBasic rest').map fun (text, after) => (c :: text, after)
  | c :: rest =>
    if isLineChar c then (readBasic rest).map fun (text, after) => (c :: text, after) else none
termination_by cs => cs.length

/-- A string in single quotes, after the opening one: every character stands for itself. -/
def readLiteral : List Char → Option (List Char × List Char)
  | [] => none
  | '\'' :: rest => some ([], rest)
  | c :: rest =>
    if isLineChar c then (readLiteral rest).map fun (text, after) => (c :: text, after) else none

/-- The text after a break that directly follows three opening quotes, which does not count. -/
def afterFirstBreak (cs : List Char) : List Char := (afterBreak? cs).getD cs

def skipBlankLines : List Char → List Char
  | '\n' :: rest => skipBlankLines rest
  | '\r' :: '\n' :: rest => skipBlankLines rest
  | c :: rest => if isSpace c then skipBlankLines rest else c :: rest
  | [] => []

theorem length_skipBlankLines_le (cs : List Char) : (skipBlankLines cs).length ≤ cs.length := by
  fun_induction skipBlankLines cs <;> simp_all <;> omega

/-- The text after a line break that a backslash hides: white space around it and breaks after it go
too. -/
def afterHiddenBreak? (cs : List Char) : Option (List Char) :=
  (afterBreak? (skipSpace cs)).map skipBlankLines

theorem length_afterHiddenBreak? {cs rest : List Char} (h : afterHiddenBreak? cs = some rest) :
    rest.length < cs.length := by
  obtain ⟨after, ha, rfl⟩ := Option.map_eq_some_iff.1 h
  have h₁ := length_skipBlankLines_le after
  have h₂ : (skipSpace cs).length ≤ cs.length := (List.dropWhile_suffix _).length_le
  unfold afterBreak? at ha
  split at ha
  · rename_i hs; cases ha; rw [hs, List.length_cons] at h₂; omega
  · rename_i hs; cases ha; rw [hs, List.length_cons, List.length_cons] at h₂; omega
  · cases ha

/-- Up to two quotes right after three closing ones, which belong to the text, and the text after
them. -/
def closingQuotes (q : Char) : List Char → List Char × List Char
  | a :: b :: rest =>
    if a = q ∧ b = q then ([q, q], rest) else if a = q then ([q], b :: rest)
    else ([], a :: b :: rest)
  | [a] => if a = q then ([q], []) else ([], [a])
  | [] => ([], [])

/-- A string in three double quotes, after the opening ones. -/
def readBasicLines : List Char → Option (List Char × List Char)
  | [] => none
  | '"' :: '"' :: '"' :: rest => some (closingQuotes '"' rest)
  | '\\' :: rest =>
    match hb : afterHiddenBreak? rest with
    | some rest' =>
      have := length_afterHiddenBreak? hb
      readBasicLines rest'
    | none =>
      match h : readEscape rest with
      | none => none
      | some (c, rest') =>
        have := length_readEscape h
        (readBasicLines rest').map fun (text, after) => (c :: text, after)
  | '\r' :: '\n' :: rest => (readBasicLines rest).map fun (text, after) => ('\n' :: text, after)
  | c :: rest =>
    if isLineChar c || c == '\n' then (readBasicLines rest).map fun (text, after) =>
      (c :: text, after)
    else none
termination_by cs => cs.length

/-- A string in three single quotes, after the opening ones. -/
def readLiteralLines : List Char → Option (List Char × List Char)
  | [] => none
  | '\'' :: '\'' :: '\'' :: rest => some (closingQuotes '\'' rest)
  | '\r' :: '\n' :: rest => (readLiteralLines rest).map fun (text, after) => ('\n' :: text, after)
  | c :: rest =>
    if isLineChar c || c == '\n' then (readLiteralLines rest).map fun (text, after) =>
      (c :: text, after)
    else none

def readString : List Char → Option (String × List Char)
  | '"' :: '"' :: '"' :: rest =>
    (readBasicLines (afterFirstBreak rest)).map fun (text, after) => (String.ofList text, after)
  | '"' :: rest => (readBasic rest).map fun (text, after) => (String.ofList text, after)
  | '\'' :: '\'' :: '\'' :: rest =>
    (readLiteralLines (afterFirstBreak rest)).map fun (text, after) => (String.ofList text, after)
  | '\'' :: rest => (readLiteral rest).map fun (text, after) => (String.ofList text, after)
  | _ => none

/-! ## Numbers -/

/-- Digits with single underscores between them, after a first digit; the underscores go. -/
def readMoreDigits (isDigit : Char → Bool) : List Char → Option (List Char × List Char)
  | [] => some ([], [])
  | '_' :: d :: rest =>
    if isDigit d then (readMoreDigits isDigit rest).map fun (digits, after) =>
      (d :: digits, after) else none
  | c :: rest =>
    if isDigit c then (readMoreDigits isDigit rest).map fun (digits, after) => (c :: digits, after)
    else if c = '_' then none
    else some ([], c :: rest)

/-- Digits with single underscores between them. -/
def readDigits (isDigit : Char → Bool) : List Char → Option (List Char × List Char)
  | [] => none
  | c :: rest =>
    if isDigit c then (readMoreDigits isDigit rest).map fun (digits, after) =>
      (c :: digits, after) else none

/-- The digits in front of the point: no zero before another digit. -/
def readFront : List Char → Option (List Char × List Char)
  | '0' :: rest => some (['0'], rest)
  | cs => readDigits Text.isAsciiDigit cs

/-- The digits behind the point, none if there is no point. -/
def readPoint : List Char → Option (Option (List Char) × List Char)
  | '.' :: rest =>
    (readDigits Text.isAsciiDigit rest).map fun (digits, after) => (some digits, after)
  | cs => some (none, cs)

def readSign : List Char → Bool × List Char
  | '-' :: rest => (true, rest)
  | '+' :: rest => (false, rest)
  | cs => (false, cs)

/-- The exponent, none if there is no letter for one. -/
def readExponent : List Char → Option (Option Int × List Char)
  | c :: rest =>
    if c = 'e' ∨ c = 'E' then
      let (negative, rest) := readSign rest
      (readDigits Text.isAsciiDigit rest).map fun (digits, after) =>
        let n : Int := Text.decimalNumber digits
        (some (if negative then -n else n), after)
    else some (none, c :: rest)
  | [] => some (none, [])

/-- A whole number of signed 64 bits. -/
def signed? (n : Int) : Option Item :=
  if -0x8000000000000000 ≤ n ∧ n < 0x8000000000000000 then some (.whole n) else none

/-- A decimal number after its sign. Too large a positive one is a fault, a negative one an
infinity. -/
def readMagnitude (negative : Bool) (cs : List Char) : Option (Item × List Char) := do
  let (front, cs) ← readFront cs
  let (point, cs) ← readPoint cs
  let (exponent, cs) ← readExponent cs
  let item ← match point, exponent with
    | none, none =>
      let n : Int := Text.decimalNumber front
      signed? (if negative then -n else n)
    | _, _ =>
      let digits := point.getD []
      match Double.ofDecimal? negative (Text.decimalNumber (front ++ digits))
          (exponent.getD 0 - digits.length) with
      | some x => some (.double x)
      | none => if negative then some .notFinite else none
  return (item, cs)

/-- A whole number in another base after its mark. -/
def readBased (base : Nat) (cs : List Char) : Option (Item × List Char) := do
  let (digits, cs) ← readDigits (fun c => (Text.hexValue? c).any (· < base)) cs
  let n := digits.foldl (fun n c => n * base + (Text.hexValue? c).getD 0) 0
  let item ← signed? n
  return (item, cs)

/-- The text after `word`, if it stands at the front. -/
def afterWord? (word : List Char) (cs : List Char) : Option (List Char) :=
  if word.isPrefixOf cs then some (cs.drop word.length) else none

/-- A number that is not finite, after its sign. -/
def readNotFinite (cs : List Char) : Option (Item × List Char) :=
  ((afterWord? ['i', 'n', 'f'] cs).or (afterWord? ['n', 'a', 'n'] cs)).map (.notFinite, ·)

def readNumber (cs : List Char) : Option (Item × List Char) :=
  match cs with
  | '0' :: 'x' :: rest => readBased 16 rest
  | '0' :: 'o' :: rest => readBased 8 rest
  | '0' :: 'b' :: rest => readBased 2 rest
  | cs =>
    let (negative, rest) := readSign cs
    (readNotFinite rest).or (readMagnitude negative rest)

/-! ## Keys -/

def readName (cs : List Char) : Option (String × List Char) :=
  match cs with
  | '"' :: rest => (readBasic rest).map fun (text, after) => (String.ofList text, after)
  | '\'' :: rest => (readLiteral rest).map fun (text, after) => (String.ofList text, after)
  | _ =>
    match cs.takeWhile isBareChar with
    | [] => none
    | name => some (String.ofList name, cs.dropWhile isBareChar)

/-- The names of a key with dots between them, white space around each: `bound` limits their
number. -/
def readNames : (bound : Nat) → List Char → Option (List String × List Char)
  | 0, _ => none
  | bound + 1, cs =>
    match readName (skipSpace cs) with
    | none => none
    | some (name, rest) =>
      match skipSpace rest with
      | '.' :: rest => (readNames bound rest).map fun (names, after) => (name :: names, after)
      | rest => some ([name], rest)

/-- How deep values may nest, and how many names a key may have. -/
def nestingLimit : Nat := 79

/-- A key: the names on the way, the last name, and the text after it. -/
def readKey (cs : List Char) : Option (List String × String × List Char) :=
  match readNames nestingLimit cs with
  | none => none
  | some (names, rest) => names.getLast?.map fun name => (names.dropLast, name, rest)

/-! ## Values -/

def readScalar (cs : List Char) : Option (Item × List Char) :=
  match cs with
  | [] => none
  | c :: _ =>
    if c = '"' ∨ c = '\'' then (readString cs).map fun (s, rest) => (.text s, rest)
    else if c = 't' then (afterWord? ['t', 'r', 'u', 'e'] cs).map (.bool true, ·)
    else if c = 'f' then (afterWord? ['f', 'a', 'l', 's', 'e'] cs).map (.bool false, ·)
    else if beginsWithHour cs || beginsWithYear cs then
      (readDatetime cs).toOption.map fun (d, rest) => (.datetime d, rest)
    else readNumber cs

/-- The items of an array after its opening bracket, each followed by a comma except perhaps the
last. -/
def readArray (item : List Char → Option (Item × List Char)) :
    (bound : Nat) → List Char → Option (List Item × List Char)
  | 0, _ => none
  | bound + 1, cs =>
    match skipFiller false cs with
    | none => none
    | some (']' :: rest) => some ([], rest)
    | some cs =>
      match item cs with
      | none => none
      | some (first, rest) =>
        match skipFiller false rest with
        | some (',' :: rest) =>
          (readArray item bound rest).map fun (more, after) => (first :: more, after)
        | some (']' :: rest) => some ([first], rest)
        | _ => none

def readPair (item : List Char → Option (Item × List Char)) (cs : List Char) :
    Option ((List String × String × Item) × List Char) := do
  let (path, name, cs) ← readKey cs
  let cs ← after? '=' cs
  let (value, cs) ← item (skipSpace cs)
  return ((path, name, value), cs)

/-- The pairs of an inline table, one or more with commas between them, up to the closing brace. -/
def readPairs (item : List Char → Option (Item × List Char)) :
    (bound : Nat) → List Char → Option (List (List String × String × Item) × List Char)
  | 0, _ => none
  | bound + 1, cs =>
    match readPair item cs with
    | none => none
    | some (first, rest) =>
      match skipSpace rest with
      | ',' :: rest => (readPairs item bound rest).map fun (more, after) => (first :: more, after)
      | '\x7d' :: rest => some ([first], rest)
      | _ => none

def tableOf? (pairs : List (List String × String × Item)) : Option Item := do
  let entries ← pairs.foldlM (fun entries (path, name, item) =>
    DraftEntries.assignDotted name item path entries) ([] : DraftEntries)
  return .table (Draft.finishEntries entries)

def readInlineTable (item : List Char → Option (Item × List Char)) (cs : List Char) :
    Option (Item × List Char) :=
  match skipSpace cs with
  | '\x7d' :: rest => some (.table [], rest)
  | cs =>
    match readPairs item cs.length cs with
    | none => none
    | some (pairs, rest) => (tableOf? pairs).map (·, rest)

/-- A value that opens at most `depth` containers inside each other. -/
def readItem : (depth : Nat) → List Char → Option (Item × List Char)
  | 0, '[' :: _ => none
  | 0, '\x7b' :: _ => none
  | depth + 1, '[' :: rest =>
    (readArray (readItem depth) (rest.length + 1) rest).map fun (items, after) =>
      (.list items, after)
  | depth + 1, '\x7b' :: rest => readInlineTable (readItem depth) rest
  | _, cs => readScalar cs

/-! ## Statements -/

/-- A line of a text. -/
inductive Statement where
  | assign (path : List String) (name : String) (item : Item)
  | table (path : List String) (name : String)
  | element (path : List String) (name : String)

/-- A header after its brackets, up to the end of its line. -/
def readHeader (cs : List Char) : Option (Statement × List Char) :=
  match cs with
  | '[' :: rest => do
    let (path, name, cs) ← readKey rest
    let cs ← after? ']' cs
    let cs ← after? ']' cs
    return (.element path name, ← afterLine? cs)
  | rest => do
    let (path, name, cs) ← readKey rest
    let cs ← after? ']' cs
    return (.table path name, ← afterLine? cs)

/-- A key with its value, up to the end of its line. -/
def readAssignment (cs : List Char) : Option (Statement × List Char) := do
  let ((path, name, item), cs) ← readPair (readItem nestingLimit) cs
  return (.assign path name item, ← afterLine? cs)

/-- The statements of a text, of which there are no more than characters. -/
def readStatements : (bound : Nat) → List Char → Option (List Statement)
  | 0, cs => if (skipSpace cs).isEmpty then some [] else none
  | bound + 1, cs =>
    match skipSpace cs with
    | [] => some []
    | c :: rest =>
      if c = '#' ∨ c = '\n' ∨ c = '\r' then
        match afterLine? (c :: rest) with
        | some rest => readStatements bound rest
        | none => none
      else
        match (if c = '[' then readHeader rest else readAssignment (c :: rest)) with
        | some (statement, rest) => (readStatements bound rest).map (statement :: ·)
        | none => none

/-- A draft and the path of the section that is open. -/
structure Progress where
  entries : DraftEntries
  path : List String

def Progress.step (p : Progress) : Statement → Option Progress
  | .assign path name item =>
    (p.entries.editAt (DraftEntries.assignDotted name item path) p.path).map (⟨·, p.path⟩)
  | .table path name =>
    (p.entries.editAt (DraftEntries.openTable name) path).map (⟨·, path ++ [name]⟩)
  | .element path name =>
    (p.entries.editAt (DraftEntries.openElement name) path).map (⟨·, path ++ [name]⟩)

/-- The text without a mark of byte order in front. -/
def withoutMark : List Char → List Char
  | c :: rest => if c.toNat = 0xFEFF then rest else c :: rest
  | [] => []

/-- The named items of the root table that a text denotes. -/
def readItems? (text : String) : Option (List (String × Item)) := do
  let cs := withoutMark text.toList
  let statements ← readStatements cs.length cs
  let progress ← statements.foldlM Progress.step ⟨[], []⟩
  Item.resolveEntries? (Draft.finishEntries progress.entries)

/-- The entries of the table that a text denotes. -/
def readTable? (text : String) :
    Option (List (String × Value)) := (readItems? text).map Item.toEntries

end Sweep.Toml
