import Sweep.Fault
import Sweep.Key.Reader
import Sweep.Text.Terminal

/-!
# Arguments

The words of a command line: two positional ones, options that take a value, and flags. Options may
stand anywhere in front of `--`; a short one may carry its value with it, and short flags may be
joined.

A value is not looked at when it is met but when the next thing **settles** it: the next option or
flag that is known, the next positional word, or the end. A word that cannot be placed is reported
at once, so it wins over a bad value just in front of it.
-/

set_option autoImplicit false

namespace Sweep.CommandLine

/-- An option that takes a value, and may be given any number of times. -/
inductive ValueOption where
  | render
  | bind
deriving DecidableEq, Repr

/-- A flag. -/
inductive Flag where
  | verbose
  | dryRun
  | help
  | version
deriving DecidableEq, Repr

/-- One of the two positional words. -/
inductive Positional where
  | output
  | input
deriving DecidableEq, Repr

/-- What a name on the command line stands for. -/
inductive Named where
  | option (option : ValueOption)
  | flag (flag : Flag)
deriving DecidableEq, Repr

/-- The long name of an option, with the name of its value. -/
def ValueOption.shown : ValueOption → String
  | .render => "--render <KEY>"
  | .bind => "--bind <KEY,KEY,...>"

def Flag.shown : Flag → String
  | .verbose => "--verbose"
  | .dryRun => "--dry-run"
  | .help => "--help"
  | .version => "--version"

def Positional.shown : Positional → String
  | .output => "<OUTPUT>"
  | .input => "<INPUT>"

def Named.ofLong? (name : List Char) : Option Named :=
  if name = "render".toList then some (.option .render)
  else if name = "bind".toList then some (.option .bind)
  else if name = "verbose".toList then some (.flag .verbose)
  else if name = "dry-run".toList then some (.flag .dryRun)
  else if name = "help".toList then some (.flag .help)
  else if name = "version".toList then some (.flag .version)
  else none

def Named.ofShort? (letter : Char) : Option Named :=
  if letter = 'r' then some (.option .render)
  else if letter = 'b' then some (.option .bind)
  else if letter = 'v' then some (.flag .verbose)
  else if letter = 'n' then some (.flag .dryRun)
  else if letter = 'h' then some (.flag .help)
  else if letter = 'V' then some (.flag .version)
  else none

/-- What ends the reading of a command line. -/
inductive Usage where
  /-- a positional word is missing -/
  | missingArguments
  /-- a word that has no place -/
  | unexpectedArgument (word : String)
  /-- a value that its option does not take -/
  | invalidValue (value : String) (option : ValueOption) (why : Fault)
  /-- an option without a value -/
  | missingOptionValue (option : ValueOption)
  /-- a positional word that is empty -/
  | emptyPositional (positional : Positional)
  /-- a flag given twice -/
  | repeatedFlag (flag : Flag)
  /-- a value for a flag -/
  | unwantedValue (value : String) (flag : Flag)
  /-- the help text is asked for -/
  | help
  /-- the version is asked for -/
  | version
deriving DecidableEq, Repr

def description : String := "Generate the cartesian product of templated configuration files"

def versionLine : String := "span 0.4.0"

/-- The message for what ended the reading of a command line. Of a word it repeats only what a
terminal shows. -/
def Usage.message : Usage → String
  | .missingArguments => "error: the following required arguments were not provided:"
  | .unexpectedArgument word => "error: unexpected argument '" ++ Text.shown word ++ "' found"
  | .invalidValue value option why =>
    "error: invalid value '" ++ Text.shown value ++ "' for '" ++ option.shown ++
      "': " ++ why.message
  | .missingOptionValue option =>
    "error: a value is required for '" ++ option.shown ++ "' but none was supplied"
  | .emptyPositional positional =>
    "error: a value is required for '" ++ positional.shown ++ "' but none was supplied"
  | .repeatedFlag flag => "error: the argument '" ++ flag.shown ++ "' cannot be used multiple times"
  | .unwantedValue value flag =>
    "error: unexpected value '" ++ Text.shown value ++ "' for '" ++ flag.shown ++
      "' found; no more were expected"
  | .help => description
  | .version => versionLine

def Usage.firstLine (usage : Usage) : String :=
  String.ofList (Text.firstLine usage.message.toList)

/-- A command line that was read. -/
structure Arguments where
  /-- the template of the paths to generate -/
  output : String
  /-- the path of the configuration file -/
  input : String
  /-- the keys to render -/
  render : List Key
  /-- the bind groups -/
  bind : List (List Key)
  verbose : Bool
  dryRun : Bool
deriving DecidableEq, Repr

/-- What waits to be settled. -/
inductive Pending where
  | option (option : ValueOption) (value : Option String)
  | positional (positional : Positional) (value : String)
deriving DecidableEq, Repr

/-- A command line that is being read. -/
structure Progress where
  output : Option String
  input : Option String
  render : List Key
  bind : List (List Key)
  verbose : Bool
  dryRun : Bool
  pending : Option Pending
deriving DecidableEq, Repr

namespace Progress

def start : Progress := ⟨none, none, [], [], false, false, none⟩

def takeValue (p : Progress) (option : ValueOption) (value : String) : Except Usage Progress :=
  match option with
  | .render =>
    match Key.parse value with
    | .ok key => .ok { p with render := p.render ++ [key] }
    | .error fault => .error (.invalidValue value .render fault)
  | .bind =>
    match Key.parseSet value with
    | .ok group => .ok { p with bind := p.bind ++ [group] }
    | .error fault => .error (.invalidValue value .bind fault)

/-- Settle what is pending. Only the input may not be empty. -/
def settle (p : Progress) : Except Usage Progress :=
  let done := { p with pending := none }
  match p.pending with
  | none => .ok done
  | some (.option option none) => .error (.missingOptionValue option)
  | some (.option option (some value)) => done.takeValue option value
  | some (.positional .output value) => .ok { done with output := some value }
  | some (.positional .input value) =>
    if value = "" then .error (.emptyPositional .input) else .ok { done with input := some value }

def raise (p : Progress) (flag : Flag) : Except Usage Progress := do
  let p ← p.settle
  match flag with
  | .help => .error .help
  | .version => .error .version
  | .verbose =>
    if p.verbose then .error (.repeatedFlag .verbose) else .ok { p with verbose := true }
  | .dryRun => if p.dryRun then .error (.repeatedFlag .dryRun) else .ok { p with dryRun := true }

/-- Meet an option, with the value it carries if it carries one. -/
def meet (p : Progress) (option : ValueOption) (value : Option String) : Except Usage Progress := do
  let p ← p.settle
  match value with
  | some value => p.takeValue option value
  | none => .ok { p with pending := some (.option option none) }

/-- A word that starts with two dashes, after them. -/
def readLong (p : Progress) (cs : List Char) : Except Usage Progress :=
  let name := cs.takeWhile (· != '=')
  let value := match cs.dropWhile (· != '=') with
    | [] => none
    | _ :: value => some (String.ofList value)
  match Named.ofLong? name with
  | none => .error (.unexpectedArgument (String.ofList ('-' :: '-' :: name)))
  | some (.option option) => p.meet option value
  | some (.flag flag) =>
    match value with
    | some value => .error (.unwantedValue value flag)
    | none => p.raise flag

/-- The value that follows the letter of a short option, an equals sign in front of it aside. -/
def carried : List Char → Option String
  | [] => none
  | '=' :: value => some (String.ofList value)
  | value => some (String.ofList value)

/-- A word that starts with one dash, after it. -/
def readShort (p : Progress) : List Char → Except Usage Progress
  | [] => .ok p
  | letter :: rest =>
    match Named.ofShort? letter with
    | none => .error (.unexpectedArgument (String.ofList ['-', letter]))
    | some (.option option) => p.meet option (carried rest)
    | some (.flag flag) => do
      let p ← p.raise flag
      readShort p rest

/-- The first positional word that was not met yet. -/
def nextPositional? (p : Progress) : Option Positional :=
  match p.pending, p.output, p.input with
  | some (.positional .output _), _, _ => some .input
  | some (.positional .input _), _, _ => none
  | _, none, _ => some .output
  | _, some _, none => some .input
  | _, some _, some _ => none

def readPositional (p : Progress) (word : String) : Except Usage Progress :=
  match p.nextPositional? with
  | none => .error (.unexpectedArgument word)
  | some positional => do
    let p ← p.settle
    .ok { p with pending := some (.positional positional word) }

/-- A word that is neither an option nor a flag: the value of the option that waits for one, or
positional. -/
def readPlain (p : Progress) (word : String) : Except Usage Progress :=
  match p.pending with
  | some (.option option none) => .ok { p with pending := some (.option option (some word)) }
  | _ => p.readPositional word

/-- The words from here on. After `--` every word is positional. -/
def readWords : (onlyPositional : Bool) → Progress → List String → Except Usage Progress
  | _, p, [] => .ok p
  | true, p, word :: rest => do
    let p ← p.readPositional word
    readWords true p rest
  | false, p, word :: rest =>
    match word.toList with
    | ['-', '-'] => readWords true p rest
    | '-' :: '-' :: long => do
      let p ← p.readLong long
      readWords false p rest
    | '-' :: letter :: more => do
      let p ← p.readShort (letter :: more)
      readWords false p rest
    | _ => do
      let p ← p.readPlain word
      readWords false p rest

end Progress

/-- The arguments that the words of a command line give. -/
def Arguments.read (words : List String) : Except Usage Arguments := do
  let p ← Progress.start.readWords false words
  let p ← p.settle
  match p.output, p.input with
  | some output, some input => .ok ⟨output, input, p.render, p.bind, p.verbose, p.dryRun⟩
  | _, _ => .error .missingArguments

end Sweep.CommandLine
