import DhrWorkbench.ActionError
import DhrWorkbench.Catalog
import DhrWorkbench.Catalog.File
import DhrWorkbench.Catalog.Shipped
import DhrWorkbench.Checks
import DhrWorkbench.CommandLine
import DhrWorkbench.CommandLine.Arguments
import DhrWorkbench.Completion
import DhrWorkbench.Event
import DhrWorkbench.FileSystem
import DhrWorkbench.Help
import DhrWorkbench.Host
import DhrWorkbench.Hover
import DhrWorkbench.Hub
import DhrWorkbench.Invocation
import DhrWorkbench.Json.Reader
import DhrWorkbench.Json.Writer
import DhrWorkbench.Language
import DhrWorkbench.Main
import DhrWorkbench.Number.Binary64
import DhrWorkbench.Number.Decimal
import DhrWorkbench.Pack
import DhrWorkbench.Path
import DhrWorkbench.Position
import DhrWorkbench.Process
import DhrWorkbench.Proofs.CallProgress
import DhrWorkbench.Proofs.Crowd
import DhrWorkbench.Proofs.Discovery
import DhrWorkbench.Proofs.Documents
import DhrWorkbench.Proofs.Encoding
import DhrWorkbench.Proofs.Files
import DhrWorkbench.Proofs.JsonLayout
import DhrWorkbench.Proofs.JsonText
import DhrWorkbench.Proofs.NumberText
import DhrWorkbench.Proofs.Numerals
import DhrWorkbench.Proofs.Paths
import DhrWorkbench.Proofs.Provenance
import DhrWorkbench.Proofs.Rounding
import DhrWorkbench.Proofs.Sameness
import DhrWorkbench.Proofs.SavedSettings
import DhrWorkbench.Proofs.SettingsRuns
import DhrWorkbench.Proofs.SingleFlight
import DhrWorkbench.Session
import DhrWorkbench.Session.Desk
import DhrWorkbench.Session.Services
import DhrWorkbench.Settings.Defaults
import DhrWorkbench.Settings.Document
import DhrWorkbench.Settings.Handed
import DhrWorkbench.Settings.Manager
import DhrWorkbench.Settings.Store
import DhrWorkbench.Shell
import DhrWorkbench.Template
import DhrWorkbench.Text
import DhrWorkbench.Text.Blank
import DhrWorkbench.Text.Digit
import DhrWorkbench.Text.Lower
import DhrWorkbench.Text.Printable
import DhrWorkbench.Text.Quoted
import DhrWorkbench.Text.Utf8
import DhrWorkbench.Toolchain
import DhrWorkbench.Toolchain.Locator
import DhrWorkbench.Toolchain.Rehearsal
import DhrWorkbench.Toolchain.Search
import DhrWorkbench.Toolchain.Site
import DhrWorkbench.Value
import DhrWorkbench.Value.Float
import DhrWorkbench.Value.Integer
import DhrWorkbench.Workspace
import DhrWorkbench.Proofs.Answers
import DhrWorkbench.Proofs.BarredFiles
import DhrWorkbench.Proofs.ToolchainSection
import DhrWorkbench.Proofs.ClearSettings
import DhrWorkbench.Proofs.Recoverable
import DhrWorkbench.Proofs.CatalogFaults
import DhrWorkbench.Proofs.Positions
import DhrWorkbench.Proofs.Reloading
import DhrWorkbench.Proofs.Words
import DhrWorkbench.Proofs.Memo
import DhrWorkbench.Proofs.DottedKeys
import DhrWorkbench.Proofs.Notification
import DhrWorkbench.Proofs.CurrentToolchain
import DhrWorkbench.Proofs.Surfaces
import DhrWorkbench.Proofs.DeskSearch
import DhrWorkbench.Proofs.RunStages
import DhrWorkbench.Proofs.CheckLine
import DhrWorkbench.Proofs.PendingChecks
import DhrWorkbench.Proofs.DeskNotices
import DhrWorkbench.Proofs.Indicator
import DhrWorkbench.Proofs.HubRequests
import DhrWorkbench.Proofs.Services
import DhrWorkbench.Proofs.ServiceHistories
import DhrWorkbench.Proofs.Overrides
import DhrWorkbench.Proofs.CheckStatus
import DhrWorkbench.Proofs.WordSpans
import DhrWorkbench.Proofs.SlotTokens
import DhrWorkbench.Proofs.KeyLaws
import DhrWorkbench.Proofs.FilledDefaults
import DhrWorkbench.Proofs.ShellWords
import DhrWorkbench.Proofs.SearchFailures
import DhrWorkbench.Proofs.Targets
import DhrWorkbench.Proofs.FailedSaves
import DhrWorkbench.Proofs.FailedCalls
import DhrWorkbench.Proofs.CatalogFiles
import DhrWorkbench.Proofs.AbsoluteJars
import DhrWorkbench.Proofs.Extensions
import DhrWorkbench.Proofs.EffectiveChanges
