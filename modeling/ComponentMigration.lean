import ComponentMigration.Directory
import ComponentMigration.Options.OfJson
import ComponentMigration.Proofs.Markup.Chain
import ComponentMigration.Proofs.Lowering.Acceptance
import ComponentMigration.Proofs.Lowering.Reading
import ComponentMigration.Proofs.Patch
import ComponentMigration.Proofs.Splicing
import ComponentMigration.Proofs.Directory
import ComponentMigration.Proofs.Diagnostics
import ComponentMigration.Proofs.Script.Layout
import ComponentMigration.Proofs.Script.Rewriting
import ComponentMigration.Proofs.Script.Imports
import ComponentMigration.Proofs.Script.Edits
import ComponentMigration.Proofs.Script.Nested
import ComponentMigration.Proofs.Migration
import ComponentMigration.Proofs.Jsx.Printed
import ComponentMigration.Proofs.Markup.Ranges
import ComponentMigration.Proofs.Markup.Isolation
import ComponentMigration.Proofs.Lowering.Static
import ComponentMigration.Proofs.Markup.Normal
import ComponentMigration.Proofs.Lowering.Elements
import ComponentMigration.Proofs.SingleFile.Agreement
import ComponentMigration.Proofs.Lowering.Snippets
import ComponentMigration.Proofs.Lowering.Modifiers
import ComponentMigration.Proofs.Script.Writes
import ComponentMigration.Proofs.Script.Chained
import ComponentMigration.Proofs.Repetition
import ComponentMigration.Proofs.Script.Adding
import ComponentMigration.Proofs.Lowering.Models
import ComponentMigration.Proofs.Lowering.Targets
import ComponentMigration.Proofs.Script.Requests
import ComponentMigration.Proofs.SingleFile.Outermost
import ComponentMigration.Proofs.Markup.Shorthand
import ComponentMigration.Proofs.Markup.Aliases
import ComponentMigration.Proofs.Naming
import ComponentMigration.Proofs.Script.Hoisting
import ComponentMigration.Proofs.Script.Partition
import ComponentMigration.Proofs.Script.LaidOut
import ComponentMigration.Proofs.Markup.Turns
