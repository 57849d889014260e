import LinkPilot.Browsers
import LinkPilot.Compile
import LinkPilot.Config
import LinkPilot.ConfigJson
import LinkPilot.Daemon
import LinkPilot.Dispatch
import LinkPilot.Downloads
import LinkPilot.Edits
import LinkPilot.Explain
import LinkPilot.Framing
import LinkPilot.Handoff
import LinkPilot.HistoryPrivacy
import LinkPilot.LaunchAtLogin
import LinkPilot.Launcher
import LinkPilot.Lib.Interleaving
import LinkPilot.Lib.JsonText
import LinkPilot.Lib.ReadModifyWrite
import LinkPilot.Lib.TempRename
import LinkPilot.Lib.UrlGrammar
import LinkPilot.Lifecycle
import LinkPilot.LostUpdates
import LinkPilot.Migration
import LinkPilot.Picker
import LinkPilot.PickerSlot
import LinkPilot.Protocol
import LinkPilot.ReadBack
import LinkPilot.RouteOpen
import LinkPilot.Routing
import LinkPilot.RuleEdits
import LinkPilot.Server
import LinkPilot.Signals
import LinkPilot.Store
import LinkPilot.StoreRace
import LinkPilot.TempFile
import LinkPilot.Transact
import LinkPilot.Transport
import LinkPilot.UpdateDownload
import LinkPilot.UpdateFlow
import LinkPilot.UpdateInstall
import LinkPilot.Worker
import LinkPilot.WorkspaceGate
import LinkPilot.VersionOrder
import LinkPilot.StoreEdition
import LinkPilot.UnknownVerb
import LinkPilot.Lib.Tally
import LinkPilot.Observations
import LinkPilot.OpenAgreement
import LinkPilot.Dsl
import LinkPilot.Lib.Lines
import LinkPilot.Lib.Texts
import LinkPilot.Lib.JsonLines
import LinkPilot.Lib.Mutex
import LinkPilot.Lib.StableSort
import LinkPilot.ObservationLog
import LinkPilot.Retention
import LinkPilot.Dismissals
import LinkPilot.RouteHistory
import LinkPilot.Globs
import LinkPilot.FirefoxProfiles
import LinkPilot.ProfileOrder
import LinkPilot.ProfileOrderEditor
import LinkPilot.Lib.Substrings
import LinkPilot.Lib.Chains
import LinkPilot.Lib.Brackets
import LinkPilot.Lib.Xml
import LinkPilot.Plists
import LinkPilot.Checksums
import LinkPilot.MachO
import LinkPilot.RuleTexts
import LinkPilot.OpenerRing
import LinkPilot.IconCache
import LinkPilot.ReleaseFeed
import LinkPilot.RemoteCall
import LinkPilot.Lib.Moments
import LinkPilot.Requests
import LinkPilot.Ask
import LinkPilot.Halo
import LinkPilot.Learning
import LinkPilot.RuleEditor
import LinkPilot.RulesPage
import LinkPilot.Integrity
import LinkPilot.Lib.Paths
import LinkPilot.UpdateJob
import LinkPilot.Staging
import LinkPilot.UpdateRuns
