/-!
# Refusals of the file system

What a file system answers when it will not do as asked. The numbers and words are those that users
know from other programs on the same system.
-/

set_option autoImplicit false

namespace Sweep.Files

/-- Why the file system refuses. -/
inductive Refusal where
  /-- nothing has this name -/
  | absent
  /-- the name is taken -/
  | exists
  /-- a file stands where a directory must -/
  | notDirectory
  /-- a directory stands where a file must -/
  | isDirectory
  /-- a name or a whole path is longer than the system takes -/
  | nameTooLong
  /-- a path that holds the character U+0000, which no name can -/
  | zeroCharacter
  /-- any other refusal, in the system's words -/
  | other (words : String)
deriving DecidableEq, Repr

def Refusal.words : Refusal → String
  | .absent => "No such file or directory (os error 2)"
  | .exists => "File exists (os error 17)"
  | .notDirectory => "Not a directory (os error 20)"
  | .isDirectory => "Is a directory (os error 21)"
  | .nameTooLong => "File name too long (os error 36)"
  | .zeroCharacter => "file name contained an unexpected NUL byte"
  | .other words => words

end Sweep.Files
