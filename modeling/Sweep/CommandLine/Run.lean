import Sweep.CommandLine.Arguments
import Sweep.Delivery

/-!
# A run

From arguments to generated files: bind groups, plan, input document and the check of the values to
render come first, in this order, and only then the expansion. So whatever those find wrong ends the
run before anything is written; files written before a later fault stay.

`simulate` is a whole run on files in memory, with all that it prints.
-/

set_option autoImplicit false

namespace Sweep.CommandLine

/-- A fault, and what the run was doing. -/
structure Failure where
  context : Option String
  fault : Fault
deriving DecidableEq, Repr

/-- The line that reports a failure: context, fault and causes with colons between them. -/
def Failure.line (failure : Failure) : String :=
  "Error: " ++ String.intercalate ": " (failure.context.toList ++ failure.fault.message ::
    failure.fault.causes)

def summaryLine (dryRun : Bool) (count : Nat) : String :=
  "✓ " ++ (if dryRun then "Would generate " else "Generated ") ++ Nat.repr count ++
    (if count = 1 then " file" else " files")

def inContext {α : Type} (context : String) : Except Fault α → Except Failure α
  | .ok value => .ok value
  | .error fault => .error ⟨some context, fault⟩

def Arguments.plan (args : Arguments) : Except Failure Plan := do
  let bindings ← inContext "Invalid --bind arguments" (Bindings.ofGroups args.bind)
  inContext "Invalid output path template" (Plan.make args.output args.render bindings)

def Arguments.isLoud (args : Arguments) : Bool := args.verbose || args.dryRun

variable {m : Type → Type} [Monad m]

/-- Carry out a plan on a document that was loaded. -/
def carryOut (args : Arguments) (plan : Plan) (outlet : Outlet m) (doc : Document) :
    m (Except Failure Unit) :=
  match inContext "Invalid --render value" (plan.check doc) with
  | .error failure => pure (.error failure)
  | .ok () => do
    let (outcome, _) ← plan.run (Delivery.emit plan outlet) doc
    pure (inContext ("Failed to expand " ++ args.input) outcome)

def run (args : Arguments) (storage : Storage m) (outlet : Outlet m) : m (Except Failure Unit) :=
  match args.plan with
  | .error failure => pure (.error failure)
  | .ok plan => do
    match ← FileFormat.load storage args.input with
    | .error fault => pure (.error ⟨none, fault⟩)
    | .ok doc => carryOut args plan outlet doc

/-- What a run leaves behind. -/
structure Report where
  status : Nat
  standardOutput : String
  standardError : String
  files : Files.Tree

def lines (texts : List String) : String := String.join (texts.map (· ++ "\n"))

def simulate (args : Arguments) (files : Files.Tree) : Report :=
  let (result, site) := run args Site.storage (Site.outlet args.dryRun) (Site.ofTree files)
  let announced := if args.isLoud then site.announced else []
  match result with
  | .ok () =>
    ⟨0, lines (announced ++ [summaryLine args.dryRun site.recorded.length]), "", site.files⟩
  | .error failure => ⟨1, lines announced, lines [failure.line], site.files⟩

end Sweep.CommandLine
