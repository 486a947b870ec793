import InterfaceSchema.CommandLine.Command
import InterfaceSchema.FileTree.Changes
import InterfaceSchema.Main
import InterfaceSchema.Proofs.Cutting
import InterfaceSchema.Proofs.Feeding
import InterfaceSchema.Proofs.Descent
import InterfaceSchema.Proofs.Layout
import InterfaceSchema.Proofs.RoundTrip
import InterfaceSchema.Proofs.Encoding
import InterfaceSchema.Proofs.JsonReading
import InterfaceSchema.Proofs.Recovery
import InterfaceSchema.Proofs.Outputs
import InterfaceSchema.Proofs.Sources
import InterfaceSchema.Proofs.Effect
import InterfaceSchema.Proofs.Invariant
import InterfaceSchema.Proofs.Registers
import InterfaceSchema.Proofs.Reprinting
import InterfaceSchema.Proofs.KeyOrder
import InterfaceSchema.Proofs.Verdict
import InterfaceSchema.Proofs.Documents
import InterfaceSchema.Proofs.Insertion
import InterfaceSchema.Proofs.Mirroring
import InterfaceSchema.Proofs.Overwriting
import InterfaceSchema.Proofs.Rescanning
import InterfaceSchema.Proofs.Repetition
import InterfaceSchema.Proofs.Collisions
import InterfaceSchema.Proofs.Preparation
import InterfaceSchema.Proofs.Concatenation
import InterfaceSchema.Proofs.LayoutChanges
import InterfaceSchema.Proofs.Placements
import InterfaceSchema.Proofs.SettingsFile
import InterfaceSchema.Proofs.Spans
import InterfaceSchema.Proofs.IgnoredTokens
import InterfaceSchema.Proofs.Publishing
import InterfaceSchema.Proofs.SavedSettings
import InterfaceSchema.Proofs.StrictReading
import InterfaceSchema.Proofs.Extensions
import InterfaceSchema.Proofs.Searching
import InterfaceSchema.Proofs.Relocation
import InterfaceSchema.Proofs.Unambiguity
import InterfaceSchema.Proofs.JsonSyntax
import InterfaceSchema.Proofs.Locality
import InterfaceSchema.Proofs.Settling
import InterfaceSchema.Proofs.Options
import InterfaceSchema.Proofs.Independence
import InterfaceSchema.Proofs.SourceText
import InterfaceSchema.Proofs.Stack
import InterfaceSchema.Proofs.History
