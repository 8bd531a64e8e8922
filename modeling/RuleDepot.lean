import RuleDepot.Archive.Bytes
import RuleDepot.Archive.CodePage
import RuleDepot.Archive.Ending
import RuleDepot.Archive.Entry
import RuleDepot.Archive.Inflate
import RuleDepot.Archive.Zip
import RuleDepot.Artifact
import RuleDepot.Cache.Basic
import RuleDepot.Cache.Naming
import RuleDepot.Cache.Shelf
import RuleDepot.Collector.Basic
import RuleDepot.Collector.Duty
import RuleDepot.Collector.Emission
import RuleDepot.Collector.Plan
import RuleDepot.Command.Arguments
import RuleDepot.Command.Footprint
import RuleDepot.Command.Notice
import RuleDepot.Command.Run
import RuleDepot.Command.Size
import RuleDepot.Config.Basic
import RuleDepot.Config.Reader
import RuleDepot.Coordinate.Artifact
import RuleDepot.Coordinate.Fault
import RuleDepot.Coordinate.Module
import RuleDepot.Digest.Crc32
import RuleDepot.Digest.Hex
import RuleDepot.Digest.Sha256
import RuleDepot.Failure
import RuleDepot.Files.Action
import RuleDepot.Files.Change
import RuleDepot.Files.Content
import RuleDepot.Files.Error
import RuleDepot.Files.Tree
import RuleDepot.Generation.Basic
import RuleDepot.Generation.StateFile
import RuleDepot.Instant.Basic
import RuleDepot.Instant.Calendar
import RuleDepot.Instant.Reader
import RuleDepot.Json.Decoder
import RuleDepot.Json.Printer
import RuleDepot.Json.Token
import RuleDepot.Language
import RuleDepot.Ledger
import RuleDepot.Main
import RuleDepot.Path
import RuleDepot.Project.Basic
import RuleDepot.Project.Reader
import RuleDepot.Proofs.Cache.Accounting
import RuleDepot.Proofs.Cache.Backing
import RuleDepot.Proofs.Cache.Fetching
import RuleDepot.Proofs.Cache.Frame
import RuleDepot.Proofs.Collector.Finalizing
import RuleDepot.Proofs.Collector.Registering
import RuleDepot.Proofs.Coordinates
import RuleDepot.Proofs.Cuts
import RuleDepot.Proofs.Files.Growth
import RuleDepot.Proofs.Files.Publishing
import RuleDepot.Proofs.Files.Replacing
import RuleDepot.Proofs.Generation.Calls
import RuleDepot.Proofs.Generation.Ending
import RuleDepot.Proofs.Generation.FailedVisits
import RuleDepot.Proofs.Generation.Tools
import RuleDepot.Proofs.Generation.VisitOrder
import RuleDepot.Proofs.Generation.Visits
import RuleDepot.Proofs.Ledger
import RuleDepot.Proofs.Naming
import RuleDepot.Proofs.PathPieces
import RuleDepot.Proofs.Running
import RuleDepot.Proofs.Scopes
import RuleDepot.Proofs.Tables
import RuleDepot.Resolver
import RuleDepot.Rule.Basic
import RuleDepot.Rule.Printer
import RuleDepot.Scope.Basic
import RuleDepot.Scope.Memo
import RuleDepot.Step
import RuleDepot.Table
import RuleDepot.Text.Basic
import RuleDepot.Text.Utf8
import RuleDepot.Toml.Decoder
import RuleDepot.Toml.Document
import RuleDepot.Toml.Moment
import RuleDepot.Toml.Number
import RuleDepot.Toml.Quoted
import RuleDepot.Toml.Reader
import RuleDepot.Toml.Scalar
import RuleDepot.Toml.Value
import RuleDepot.Version.Order
import RuleDepot.Version.Policy
import RuleDepot.Version.Selection
import RuleDepot.Version.Semantic
import RuleDepot.Proofs.Collector.Emitting
import RuleDepot.Proofs.Collector.Planning
import RuleDepot.Proofs.Collector.RuleLists
import RuleDepot.Proofs.Collector.Targets
import RuleDepot.Proofs.Generation.Register
import RuleDepot.Proofs.Collector.References
import RuleDepot.Proofs.Generation.Shelves
import RuleDepot.Proofs.Generation.Sources
import RuleDepot.Proofs.Version.Ordering
import RuleDepot.Proofs.Version.Choosing
import RuleDepot.Proofs.Collector.Faults
import RuleDepot.Proofs.Generation.Phases
import RuleDepot.Proofs.Files.Parents
import RuleDepot.Proofs.Files.Standing
import RuleDepot.Proofs.Collector.Closing
import RuleDepot.Proofs.Files.Passing
import RuleDepot.Proofs.Files.Editing
import RuleDepot.Proofs.Files.Repeating
import RuleDepot.Proofs.Cache.Repeating
import RuleDepot.Proofs.Resolving
import RuleDepot.Proofs.Collector.Repeating
import RuleDepot.Proofs.Generation.Places
import RuleDepot.Proofs.Generation.Beginning
import RuleDepot.Proofs.Generation.Repeating
import RuleDepot.Proofs.Cache.Rediscovering
import RuleDepot.Proofs.Files.Agreeing
import RuleDepot.Proofs.Cache.Matching
import RuleDepot.Proofs.Cache.Adding
import RuleDepot.Proofs.Cache.Permuting
import RuleDepot.Proofs.Cache.Trying
import RuleDepot.Proofs.Cache.Histories
import RuleDepot.Proofs.Files.Sharing
import RuleDepot.Proofs.Collector.Matching
import RuleDepot.Proofs.Generation.Carrying
import RuleDepot.Proofs.Generation.FinalOrder
import RuleDepot.Proofs.Numerals
import RuleDepot.Proofs.Version.Compatible
import RuleDepot.Proofs.Instants
import RuleDepot.Proofs.Json.Spelling
import RuleDepot.Proofs.Json.Reading
import RuleDepot.Proofs.StateFiles
import RuleDepot.Proofs.Files.Relative
import RuleDepot.Proofs.Collector.Processors
import RuleDepot.Proofs.Generation.Toolchains
import RuleDepot.Proofs.Collector.Distinct
import RuleDepot.Proofs.Collector.Bundles
import RuleDepot.Proofs.Generation.Counts
import RuleDepot.Proofs.Generation.RuleFiles
import RuleDepot.Proofs.Generation.FailedCalls
import RuleDepot.Proofs.Generation.Records
import RuleDepot.Proofs.Cache.Failing
import RuleDepot.Proofs.Cache.Forgetting
import RuleDepot.Proofs.Collector.Overruling
import RuleDepot.Proofs.Collector.ToolJars
import RuleDepot.Proofs.Origins
import RuleDepot.Proofs.ModelFiles
import RuleDepot.Proofs.Scope.Binding
import RuleDepot.Proofs.Scope.Keeping
import RuleDepot.Proofs.Ledger.Recording
import RuleDepot.Proofs.Ledger.Selecting
import RuleDepot.Proofs.Dependencies
import RuleDepot.Proofs.Repositories
import RuleDepot.Proofs.Cache.Building
import RuleDepot.Proofs.Collector.Idling
import RuleDepot.Proofs.Collector.Lint
import RuleDepot.Proofs.Files.Writing
import RuleDepot.Proofs.RuleTexts
