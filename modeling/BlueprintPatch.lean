import BlueprintPatch.Number.Shortest
import BlueprintPatch.Number.Numeral
import BlueprintPatch.Text.Quoted
import BlueprintPatch.Text.Lines
import BlueprintPatch.Text.Utf8
import BlueprintPatch.Text.Uppercase
import BlueprintPatch.Json.Reader
import BlueprintPatch.Json.Writer
import BlueprintPatch.Json.Literal
import BlueprintPatch.Record.Field
import BlueprintPatch.Graph.Blueprint
import BlueprintPatch.Graph.Model
import BlueprintPatch.Patch.Application
import BlueprintPatch.Patch.Engine
import BlueprintPatch.Disk.Disk
import BlueprintPatch.Settings
import BlueprintPatch.Context.Import
import BlueprintPatch.Context.Export
import BlueprintPatch.Store.Store
import BlueprintPatch.Backend.Reply
import BlueprintPatch.Backend.Client
import BlueprintPatch.Session.Patching
import BlueprintPatch.Session.Editing
import BlueprintPatch.Session.Storing
import BlueprintPatch.CommandLine.Run
import BlueprintPatch.Main
import BlueprintPatch.Proofs.Batch
import BlueprintPatch.Proofs.Registry
import BlueprintPatch.Proofs.Step
import BlueprintPatch.Proofs.Ledger
import BlueprintPatch.Proofs.DryRun
import BlueprintPatch.Proofs.Links
import BlueprintPatch.Proofs.Reachable
import BlueprintPatch.Proofs.References
import BlueprintPatch.Proofs.Locking
import BlueprintPatch.Proofs.Reading
import BlueprintPatch.Proofs.Limits
import BlueprintPatch.Proofs.Searching
import BlueprintPatch.Proofs.Heap
import BlueprintPatch.Proofs.Rollback
import BlueprintPatch.Proofs.Writes
import BlueprintPatch.Proofs.Saving
import BlueprintPatch.Proofs.Rounding
import BlueprintPatch.Proofs.Decimals
import BlueprintPatch.Proofs.Numerals
import BlueprintPatch.Proofs.Strings
import BlueprintPatch.Proofs.RoundTrip
import BlueprintPatch.Proofs.Ascii
import BlueprintPatch.Proofs.Records
import BlueprintPatch.Proofs.Placing
import BlueprintPatch.Proofs.Shelves
import BlueprintPatch.Proofs.Versions
import BlueprintPatch.Proofs.Filing
import BlueprintPatch.Proofs.Keeping
import BlueprintPatch.Proofs.Entries
import BlueprintPatch.Proofs.Requests
import BlueprintPatch.Proofs.Timeline
import BlueprintPatch.Proofs.Archive
import BlueprintPatch.Proofs.Loading
import BlueprintPatch.Proofs.Handlers
import BlueprintPatch.Proofs.Agreement
import BlueprintPatch.Proofs.Distinctness
import BlueprintPatch.Proofs.Contents
import BlueprintPatch.Proofs.Composition
import BlueprintPatch.Proofs.Counting
import BlueprintPatch.Proofs.Owners
import BlueprintPatch.Proofs.Reimport
import BlueprintPatch.Proofs.Reexport
import BlueprintPatch.Proofs.Callbacks
import BlueprintPatch.Proofs.Resting
import BlueprintPatch.Proofs.Streaming
import BlueprintPatch.Proofs.Listing
import BlueprintPatch.Proofs.Shelving
import BlueprintPatch.Proofs.Numbering
import BlueprintPatch.Proofs.Declared
import BlueprintPatch.Proofs.Renumbering
import BlueprintPatch.Proofs.Reordering
import BlueprintPatch.Proofs.Footprint
import BlueprintPatch.Proofs.Exporting
import BlueprintPatch.Proofs.Stages
import BlueprintPatch.Proofs.Delivery
import BlueprintPatch.Proofs.Delivered
import BlueprintPatch.Proofs.Renaming
import BlueprintPatch.Proofs.Adding
import BlueprintPatch.Proofs.Deleting
import BlueprintPatch.Proofs.Reporting
import BlueprintPatch.Proofs.Trimming
import BlueprintPatch.Proofs.TopLevel
import BlueprintPatch.Proofs.Overrun
import BlueprintPatch.Proofs.Classifying
import BlueprintPatch.Proofs.Reverting
import BlueprintPatch.Proofs.StreamLines
import BlueprintPatch.Proofs.Depth
import BlueprintPatch.Proofs.Refusing
import BlueprintPatch.Proofs.Positions
import BlueprintPatch.Proofs.Directories
import BlueprintPatch.Proofs.Outcomes
import BlueprintPatch.Proofs.Interrupted
import BlueprintPatch.Proofs.Spelling
import BlueprintPatch.Proofs.Catalogue
import BlueprintPatch.Proofs.Predecessors
import BlueprintPatch.Proofs.Fallback
