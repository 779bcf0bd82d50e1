import SelectorRename.Main
import SelectorRename.Proofs.Extraction.Invariant
import SelectorRename.Proofs.Sorting
import SelectorRename.Proofs.Extraction.Sequence
import SelectorRename.Proofs.RenameTable.Reachable
import SelectorRename.Proofs.Renaming.Lookup
import SelectorRename.Proofs.RenameTable.Agreement
import SelectorRename.Proofs.Renaming.Attribute
import SelectorRename.Proofs.Text.Runs
import SelectorRename.Proofs.Stylesheet.Listing
import SelectorRename.Proofs.Extraction.Record
import SelectorRename.Proofs.Extraction.Naming
import SelectorRename.Proofs.Renaming.Literal
import SelectorRename.Proofs.Renaming.Words
import SelectorRename.Proofs.Renaming.Sites
import SelectorRename.Proofs.Renaming.Markers
import SelectorRename.Proofs.Renaming.Inverse
import SelectorRename.Proofs.Candidate.Rules
import SelectorRename.Proofs.Extraction.Acceptance
import SelectorRename.Proofs.Extraction.Rescan
import SelectorRename.Proofs.Json.RoundTrip
import SelectorRename.Proofs.Association
import SelectorRename.Proofs.Json.Settled
import SelectorRename.Proofs.Settings.Extract
import SelectorRename.Proofs.Files.Path
import SelectorRename.Proofs.Files.Volume
import SelectorRename.Proofs.Files.Changes
import SelectorRename.Proofs.Files.Ways
import SelectorRename.Proofs.Files.Run
import SelectorRename.Proofs.RenameTable.Stored
import SelectorRename.Proofs.RenameTable.Saving
import SelectorRename.Proofs.Command.Extract
import SelectorRename.Proofs.Command.Rerun
import SelectorRename.Proofs.Command.Rename
import SelectorRename.Proofs.Command.RenameInPlace
import SelectorRename.Proofs.Command.RenameInto
import SelectorRename.Proofs.Extraction.States
import SelectorRename.Proofs.ShortName.Requests
import SelectorRename.Proofs.Renaming.Properties
import SelectorRename.Proofs.Candidate.Shapes
import SelectorRename.Proofs.Extraction.Layout
import SelectorRename.Proofs.Renaming.Unchanged
import SelectorRename.Proofs.Renaming.FirstEntries
import SelectorRename.Proofs.ShortName.Numbering
import SelectorRename.Proofs.RenameTable.Views
import SelectorRename.Proofs.Command.Missing
