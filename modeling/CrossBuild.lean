import CrossBuild.Archive.Crc32
import CrossBuild.Archive.Extract
import CrossBuild.Archive.Zip
import CrossBuild.Artifact.Inspect
import CrossBuild.Artifact.Sha256
import CrossBuild.Assoc
import CrossBuild.BuildTree
import CrossBuild.Bytes
import CrossBuild.Cli
import CrossBuild.Config
import CrossBuild.Failure
import CrossBuild.Fetch
import CrossBuild.FileSystem.Basic
import CrossBuild.FileSystem.Error
import CrossBuild.FileSystem.Operations
import CrossBuild.FileSystem.Resolve
import CrossBuild.FileSystem.Walk
import CrossBuild.Import
import CrossBuild.Json.Basic
import CrossBuild.Json.Parser
import CrossBuild.Json.Printer
import CrossBuild.Json.Real
import CrossBuild.Main
import CrossBuild.Manifest
import CrossBuild.Options
import CrossBuild.Patch.Basic
import CrossBuild.Patch.Engine
import CrossBuild.Patch.Ledger
import CrossBuild.Patch.Plan
import CrossBuild.Path
import CrossBuild.Path.Lexical
import CrossBuild.ProcessStarter
import CrossBuild.Profile
import CrossBuild.Proofs.Archive.Tree
import CrossBuild.Proofs.Archive.Unpacked
import CrossBuild.Proofs.Artifact
import CrossBuild.Proofs.BuildTree
import CrossBuild.Proofs.BuildTree.Mirror
import CrossBuild.Proofs.BuildTree.Siblings
import CrossBuild.Proofs.BuildTree.Texts
import CrossBuild.Proofs.Fetch.Install
import CrossBuild.Proofs.Fetch.Merged
import CrossBuild.Proofs.Fetch.Staged
import CrossBuild.Proofs.FileSystem.Agree
import CrossBuild.Proofs.FileSystem.Below
import CrossBuild.Proofs.FileSystem.Changes
import CrossBuild.Proofs.FileSystem.DeadEnds
import CrossBuild.Proofs.FileSystem.Elsewhere
import CrossBuild.Proofs.FileSystem.Emptied
import CrossBuild.Proofs.FileSystem.Faults
import CrossBuild.Proofs.FileSystem.Gains
import CrossBuild.Proofs.FileSystem.Held
import CrossBuild.Proofs.FileSystem.Listing
import CrossBuild.Proofs.FileSystem.Moved
import CrossBuild.Proofs.FileSystem.Names
import CrossBuild.Proofs.FileSystem.Operations
import CrossBuild.Proofs.FileSystem.Routes
import CrossBuild.Proofs.FileSystem.Siblings
import CrossBuild.Proofs.FileSystem.Sound
import CrossBuild.Proofs.FileSystem.Straight
import CrossBuild.Proofs.FileSystem.Trail
import CrossBuild.Proofs.FileSystem.Unlinked
import CrossBuild.Proofs.FileSystem.Walk
import CrossBuild.Proofs.FileSystem.Yard
import CrossBuild.Proofs.Import
import CrossBuild.Proofs.Import.Edits
import CrossBuild.Proofs.Import.Grammar
import CrossBuild.Proofs.Import.Reread
import CrossBuild.Proofs.Json.Parser
import CrossBuild.Proofs.Lockstep
import CrossBuild.Proofs.Manifest
import CrossBuild.Proofs.Manifest.ApplicationName
import CrossBuild.Proofs.Manifest.Faults
import CrossBuild.Proofs.Outcome
import CrossBuild.Proofs.Patch.Additions
import CrossBuild.Proofs.Patch.Apply
import CrossBuild.Proofs.Patch.Bytewise
import CrossBuild.Proofs.Patch.ClosedForm
import CrossBuild.Proofs.Patch.Engine
import CrossBuild.Proofs.Patch.Fold
import CrossBuild.Proofs.Patch.Guarded
import CrossBuild.Proofs.Patch.Independent
import CrossBuild.Proofs.Patch.Ledger
import CrossBuild.Proofs.Patch.Plan
import CrossBuild.Proofs.Patch.Refused
import CrossBuild.Proofs.Patch.Restoring
import CrossBuild.Proofs.Patch.Seam
import CrossBuild.Proofs.Patch.Session
import CrossBuild.Proofs.Patch.Spares
import CrossBuild.Proofs.Patch.Vault
import CrossBuild.Proofs.Path.Lexical
import CrossBuild.Proofs.Run.Apart
import CrossBuild.Proofs.Run.Artifacts
import CrossBuild.Proofs.Run.Aside
import CrossBuild.Proofs.Run.Barred
import CrossBuild.Proofs.Run.Carried
import CrossBuild.Proofs.Run.Checked
import CrossBuild.Proofs.Run.Cleaned
import CrossBuild.Proofs.Run.Engine
import CrossBuild.Proofs.Run.EntryScript
import CrossBuild.Proofs.Run.Independent
import CrossBuild.Proofs.Run.Invoked
import CrossBuild.Proofs.Run.Lasting
import CrossBuild.Proofs.Run.Leftovers
import CrossBuild.Proofs.Run.Linked
import CrossBuild.Proofs.Run.Operands
import CrossBuild.Proofs.Run.Ordered
import CrossBuild.Proofs.Run.OtherTargets
import CrossBuild.Proofs.Run.Outside
import CrossBuild.Proofs.Run.Patched
import CrossBuild.Proofs.Run.Phases
import CrossBuild.Proofs.Run.Project
import CrossBuild.Proofs.Run.Receipt
import CrossBuild.Proofs.Run.Recorded
import CrossBuild.Proofs.Run.Restores
import CrossBuild.Proofs.Run.Results
import CrossBuild.Proofs.Run.SameTarget
import CrossBuild.Proofs.Run.SetUp
import CrossBuild.Proofs.Run.Sources
import CrossBuild.Proofs.Run.Stable
import CrossBuild.Proofs.Run.Stages
import CrossBuild.Proofs.Run.Tidied
import CrossBuild.Proofs.Run.Watched
import CrossBuild.Proofs.ScriptName
import CrossBuild.Proofs.SourceTree
import CrossBuild.Proofs.SourceTree.Dropped
import CrossBuild.Proofs.SourceTree.Located
import CrossBuild.Proofs.SourceTree.Rebindings
import CrossBuild.Proofs.SourceTree.Resolved
import CrossBuild.Proofs.SourceTree.Resolves
import CrossBuild.Proofs.SourceTree.Scanned
import CrossBuild.Proofs.SourceTree.Settled
import CrossBuild.Proofs.SourceTree.Texts
import CrossBuild.Proofs.SourceTree.Variants
import CrossBuild.Proofs.SourceTree.Written
import CrossBuild.Proofs.Task
import CrossBuild.Proofs.Text.SourceText
import CrossBuild.Proofs.Text.Splice
import CrossBuild.Proofs.Text.Utf8
import CrossBuild.Proofs.Text.Weave
import CrossBuild.Proofs.Toolchain
import CrossBuild.Proofs.Workspace
import CrossBuild.Receipt.Basic
import CrossBuild.Receipt.Printer
import CrossBuild.Receipt.Reader
import CrossBuild.Run.Build
import CrossBuild.Run.TargetBuild
import CrossBuild.ScriptName
import CrossBuild.Settings
import CrossBuild.SourceTree.Basic
import CrossBuild.SourceTree.Disk
import CrossBuild.SourceTree.Resolve
import CrossBuild.Target
import CrossBuild.Task
import CrossBuild.Text.Blank
import CrossBuild.Text.CommandLine
import CrossBuild.Text.Decimal
import CrossBuild.Text.EnvFile
import CrossBuild.Text.Lowercase
import CrossBuild.Text.Newline
import CrossBuild.Text.Printable
import CrossBuild.Text.Quoted
import CrossBuild.Text.Ranges
import CrossBuild.Text.SourceText
import CrossBuild.Text.Splice
import CrossBuild.Text.Split
import CrossBuild.Text.Utf8
import CrossBuild.Text.WordClass
import CrossBuild.Toolchain
import CrossBuild.Validation
import CrossBuild.Workspace
