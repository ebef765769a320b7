import Sweep.CommandLine.Run

/-!
# The program

The outer layer: real files, real output. Everything that is decided is decided elsewhere; here the
requests of a run are passed on to the system, and its refusals are passed back.
-/

set_option autoImplicit false

namespace Sweep.Program

/-- The refusal that a system error stands for. -/
def refusalOf : IO.Error → Files.Refusal
  | .noFileOrDirectory .. => .absent
  | .noSuchThing .. => .absent
  | .alreadyExists .. => .exists
  | .inappropriateType _ 20 _ => .notDirectory
  | .inappropriateType _ 21 _ => .isDirectory
  | .resourceExhausted _ 36 _ => .nameTooLong
  | .invalidArgument _ 36 _ => .nameTooLong
  | error => .other (toString error)

/-- Carry out an action, with a refusal in place of an exception. -/
def attempt {α : Type} (action : IO α) : IO (Except Files.Refusal α) := do
  try
    return .ok (← action)
  catch error =>
    return .error (refusalOf error)

def storage : Storage IO where
  read path := attempt (IO.FS.readFile path)
  makeDirectories path := attempt (IO.FS.createDirAll path)
  write path text := attempt (IO.FS.writeFile path text)

/-- The outlet of the program: paths are printed as they come, if they are to be seen, and
counted. -/
def outlet (args : CommandLine.Arguments) (count : IO.Ref Nat) : Outlet IO where
  save := if args.dryRun then Delivery.drySave else FileFormat.store storage
  announce path := if args.isLoud then IO.println path else pure ()
  record _ := count.modify (· + 1)

def helpText : String := CommandLine.lines [
  CommandLine.description,
  "",
  "Usage: span [OPTIONS] <OUTPUT> <INPUT>",
  "",
  "Arguments:",
  "  <OUTPUT>  Path template for generated files, e.g. \"\x7bmode\x7d/\x7bsize|%03d\x7d.toml\"",
  "  <INPUT>   Input configuration file (.toml or .json)",
  "",
  "Options:",
  "  -r, --render <KEY>        Render the template stored at KEY in every generated file (repeatable)",
  "  -b, --bind <KEY,KEY,...>  Expand the given keys together instead of as a product (repeatable)",
  "  -v, --verbose             Print every generated path",
  "  -n, --dry-run             Print the paths that would be generated without writing anything",
  "  -h, --help                Print help",
  "  -V, --version             Print version",
  "",
  "Example:",
  "  span -b width,height -r output.dir \\",
  "      '\x7bsimulation.mode\x7d/\x7bwidth\x7dx\x7bheight\x7d_\x7bsize|%03d\x7d.toml' config.toml",
  "",
  "  Every array referenced in OUTPUT is expanded; bound arrays advance together."]

/-- Say what ended the reading of the command line. -/
def reportUsage (usage : CommandLine.Usage) : IO UInt32 := do
  match usage with
  | .help =>
    IO.print helpText
    return 0
  | .version =>
    IO.println usage.message
    return 0
  | usage =>
    IO.eprintln usage.message
    IO.eprintln "\nFor more information, try '--help'."
    return 2

def start (words : List String) : IO UInt32 := do
  match CommandLine.Arguments.read words with
  | .error usage => reportUsage usage
  | .ok args =>
    let count ← IO.mkRef 0
    match ← CommandLine.run args storage (outlet args count) with
    | .ok () =>
      IO.println (CommandLine.summaryLine args.dryRun (← count.get))
      return 0
    | .error failure =>
      IO.eprintln failure.line
      return 1

end Sweep.Program

def main (words : List String) : IO UInt32 := Sweep.Program.start words
