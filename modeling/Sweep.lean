import Sweep.Bindings
import Sweep.CommandLine.Arguments
import Sweep.CommandLine.Run
import Sweep.Conversion.Directive
import Sweep.Conversion.Spelling
import Sweep.Delivery
import Sweep.Document
import Sweep.Document.Display
import Sweep.Document.Entries
import Sweep.Document.Value
import Sweep.Expansion
import Sweep.Fault
import Sweep.FileFormat
import Sweep.Files.Path
import Sweep.Files.Refusal
import Sweep.Files.Tree
import Sweep.Json.Plain
import Sweep.Json.Printer
import Sweep.Json.Reader
import Sweep.Key
import Sweep.Key.Reader
import Sweep.Key.Token
import Sweep.Main
import Sweep.Number.Decimal
import Sweep.Number.Double
import Sweep.Number.General
import Sweep.Number.Layout
import Sweep.Number.Rounding
import Sweep.Number.Scaling
import Sweep.Number.Whole
import Sweep.Plan
import Sweep.Template
import Sweep.Template.Placeholder
import Sweep.Text.Classes
import Sweep.Text.Lowercase
import Sweep.Text.Numeral
import Sweep.Text.Quoted
import Sweep.Text.Table.Alphabetic
import Sweep.Text.Table.Combining
import Sweep.Text.Table.Lowercase
import Sweep.Text.Table.Numeric
import Sweep.Text.Table.Unprintable
import Sweep.Text.Terminal
import Sweep.Toml.Datetime
import Sweep.Toml.Datetime.Reader
import Sweep.Toml.Draft
import Sweep.Toml.Item
import Sweep.Toml.Name
import Sweep.Toml.Printer
import Sweep.Toml.Reader
import Sweep.Proofs.Bindings.Calls
import Sweep.Proofs.Bindings.Drivers
import Sweep.Proofs.Bindings.Groups
import Sweep.Proofs.Bindings.Seniority
import Sweep.Proofs.CommandLine.Outputs
import Sweep.Proofs.CommandLine.Run
import Sweep.Proofs.Delivery.Account
import Sweep.Proofs.Delivery.Disk
import Sweep.Proofs.Delivery.DryRun
import Sweep.Proofs.Delivery.Leaf
import Sweep.Proofs.Delivery.Site
import Sweep.Proofs.Delivery.Templates
import Sweep.Proofs.Document.Disclosure
import Sweep.Proofs.Document.Display
import Sweep.Proofs.Document.Fill
import Sweep.Proofs.Document.Lens
import Sweep.Proofs.Document.Names
import Sweep.Proofs.Document.Parts
import Sweep.Proofs.Document.Places
import Sweep.Proofs.Document.Privacy
import Sweep.Proofs.Document.Put
import Sweep.Proofs.Except
import Sweep.Proofs.Expansion.Calls
import Sweep.Proofs.Expansion.Combinations
import Sweep.Proofs.Expansion.Copies
import Sweep.Proofs.Expansion.Itinerary
import Sweep.Proofs.Expansion.Levels
import Sweep.Proofs.Expansion.Reordering
import Sweep.Proofs.Expansion.Restoring
import Sweep.Proofs.Files.Directories
import Sweep.Proofs.Files.Steps
import Sweep.Proofs.Json.Privacy
import Sweep.Proofs.Json.RoundTrip
import Sweep.Proofs.Json.Scalars
import Sweep.Proofs.Key.Bare
import Sweep.Proofs.Key.Display
import Sweep.Proofs.Key.Grammar
import Sweep.Proofs.Key.Reading
import Sweep.Proofs.Key.Scanning
import Sweep.Proofs.Number.Characters
import Sweep.Proofs.Number.Ratios
import Sweep.Proofs.Number.GeneralForm
import Sweep.Proofs.Number.Layouts
import Sweep.Proofs.Number.Numeral
import Sweep.Proofs.Number.ReadBack
import Sweep.Proofs.Number.Shortest
import Sweep.Proofs.Number.Significant
import Sweep.Proofs.Plan.Enumeration
import Sweep.Proofs.Plan.Keys
import Sweep.Proofs.Plan.Shapes
import Sweep.Proofs.Plan.Templates
import Sweep.Proofs.Template.Cut
import Sweep.Proofs.Template.Rendering
import Sweep.Proofs.Text.Classes
import Sweep.Proofs.Text.Decimal
import Sweep.Proofs.Text.Numeral
import Sweep.Proofs.Toml.Arrangement
import Sweep.Proofs.Toml.Building
import Sweep.Proofs.Toml.Contents
import Sweep.Proofs.Toml.Copying
import Sweep.Proofs.Toml.Dates
import Sweep.Proofs.Toml.Discretion
import Sweep.Proofs.Toml.Drafts
import Sweep.Proofs.Toml.Inline
import Sweep.Proofs.Toml.Items
import Sweep.Proofs.Toml.Privacy
import Sweep.Proofs.Toml.Remainders
import Sweep.Proofs.Toml.RoundTrip
import Sweep.Proofs.Toml.Scalars
import Sweep.Proofs.Toml.Statements
import Sweep.Proofs.Toml.Strings
import Sweep.Proofs.Toml.Wholes
import Sweep.Proofs.Delivery.Order
import Sweep.Proofs.Template.Canonical
import Sweep.Proofs.Conversion.Grammar
import Sweep.Proofs.Conversion.Reading
import Sweep.Proofs.Conversion.Filling
import Sweep.Proofs.Conversion.Integers
import Sweep.Proofs.Conversion.Doubles
import Sweep.Proofs.Conversion.Marks
import Sweep.Proofs.Conversion.Quoted
import Sweep.Proofs.Conversion.Widths
