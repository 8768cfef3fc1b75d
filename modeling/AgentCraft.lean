import AgentCraft.Access.Accounts
import AgentCraft.Access.ActionTokens
import AgentCraft.Access.AdminGate
import AgentCraft.Access.Challenges
import AgentCraft.Access.Deletion
import AgentCraft.Access.Erasure
import AgentCraft.Access.FinalSweep
import AgentCraft.Access.Guesses
import AgentCraft.Access.Invitations
import AgentCraft.Access.Login
import AgentCraft.Access.Moderation
import AgentCraft.Access.ModerationSteps
import AgentCraft.Access.ModerationTrail
import AgentCraft.Access.RateLimit
import AgentCraft.Access.RateSound
import AgentCraft.Access.RetryAfter
import AgentCraft.Access.Revocation
import AgentCraft.Access.SessionLife
import AgentCraft.Access.SingleUse
import AgentCraft.Access.Supersession
import AgentCraft.Access.Tally
import AgentCraft.Content.Autocheck
import AgentCraft.Content.Catalogue
import AgentCraft.Content.Dependencies
import AgentCraft.Content.Numbering
import AgentCraft.Content.Offline
import AgentCraft.Content.Publication
import AgentCraft.Content.References
import AgentCraft.Content.SkillPrompt
import AgentCraft.Content.Steps
import AgentCraft.Credentials.Envelope
import AgentCraft.Credentials.KeySealer
import AgentCraft.Engine.CliTransport
import AgentCraft.Engine.ContainerForms
import AgentCraft.Engine.ContainerSpecs
import AgentCraft.Engine.Extension
import AgentCraft.Engine.ExtensionTemplate
import AgentCraft.Engine.Hygiene
import AgentCraft.Engine.LineAssembler
import AgentCraft.Engine.MountedTools
import AgentCraft.Engine.PiEngine
import AgentCraft.Engine.SandboxSession
import AgentCraft.Mail.Delivery
import AgentCraft.Mail.Outbox
import AgentCraft.Python.Addresses
import AgentCraft.Python.Encodings
import AgentCraft.Python.EscapedTexts
import AgentCraft.Python.FlatObjects
import AgentCraft.Python.Json
import AgentCraft.Python.JsonDumps
import AgentCraft.Python.JsonLoads
import AgentCraft.Python.JsonNumbers
import AgentCraft.Python.JsonTexts
import AgentCraft.Python.Placeholders
import AgentCraft.Python.Quoting
import AgentCraft.Python.Regex
import AgentCraft.Python.SortedDumps
import AgentCraft.Python.Text
import AgentCraft.Python.Urls
import AgentCraft.Python.Utf8
import AgentCraft.Python.Uuid
import AgentCraft.Relational.Lineage
import AgentCraft.Relational.Rows
import AgentCraft.Relational.Table
import AgentCraft.Requests.AdminReads
import AgentCraft.Requests.AdminRoutes
import AgentCraft.Requests.Egress
import AgentCraft.Requests.EgressGuard
import AgentCraft.Requests.Idempotency
import AgentCraft.Requests.Replies
import AgentCraft.Requests.RequestIdentity
import AgentCraft.Requests.RpcBody
import AgentCraft.Requests.UploadGuard
import AgentCraft.Streams.Blocks
import AgentCraft.Streams.CommandLine
import AgentCraft.Streams.EventStream
import AgentCraft.Streams.Lines
import AgentCraft.Streams.Numbered
import AgentCraft.Tasking.AccountHook
import AgentCraft.Tasking.Answers
import AgentCraft.Tasking.Callbacks
import AgentCraft.Tasking.Cancellations
import AgentCraft.Tasking.CatalogFrame
import AgentCraft.Tasking.Closing
import AgentCraft.Tasking.Control
import AgentCraft.Tasking.CountLedger
import AgentCraft.Tasking.Coupling
import AgentCraft.Tasking.Density
import AgentCraft.Tasking.DiskAgreement
import AgentCraft.Tasking.DiskFiles
import AgentCraft.Tasking.DiskPrograms
import AgentCraft.Tasking.DispatchCycle
import AgentCraft.Tasking.Dispatcher
import AgentCraft.Tasking.Downloads
import AgentCraft.Tasking.EventLog
import AgentCraft.Tasking.EventPages
import AgentCraft.Tasking.Execution
import AgentCraft.Tasking.Executor
import AgentCraft.Tasking.Fencing
import AgentCraft.Tasking.FileChanges
import AgentCraft.Tasking.FileLimits
import AgentCraft.Tasking.Files
import AgentCraft.Tasking.Forward
import AgentCraft.Tasking.Holdings
import AgentCraft.Tasking.InputFreeze
import AgentCraft.Tasking.Isolation
import AgentCraft.Tasking.KeyChanges
import AgentCraft.Tasking.KeyVersions
import AgentCraft.Tasking.KillSwitch
import AgentCraft.Tasking.Ledger
import AgentCraft.Tasking.Lifecycle
import AgentCraft.Tasking.LiveRounds
import AgentCraft.Tasking.LockOrder
import AgentCraft.Tasking.McpServers
import AgentCraft.Tasking.PromptHistory
import AgentCraft.Tasking.ProviderProxy
import AgentCraft.Tasking.ProviderRefs
import AgentCraft.Tasking.Providers
import AgentCraft.Tasking.QuotaCaps
import AgentCraft.Tasking.QuotaUpdates
import AgentCraft.Tasking.Reclaim
import AgentCraft.Tasking.Release
import AgentCraft.Tasking.Retention
import AgentCraft.Tasking.Rounds
import AgentCraft.Tasking.Runtime
import AgentCraft.Tasking.Schema
import AgentCraft.Tasking.Service
import AgentCraft.Tasking.SettleContent
import AgentCraft.Tasking.StaleTasks
import AgentCraft.Tasking.State
import AgentCraft.Tasking.StorageLedger
import AgentCraft.Tasking.StreamGaps
import AgentCraft.Tasking.StreamMerge
import AgentCraft.Tasking.Suspension
import AgentCraft.Tasking.SweepCycle
import AgentCraft.Tasking.TaskStorage
import AgentCraft.Tasking.TaskStreams
import AgentCraft.Tasking.Terminators
import AgentCraft.Tasking.ToolSwitch
import AgentCraft.Tasking.Transactions
import AgentCraft.Tasking.Watchdog
import AgentCraft.Tasking.World
import AgentCraft.Transition.Disk
import AgentCraft.Transition.Fallible
import AgentCraft.Transition.Locks
import AgentCraft.Transition.RowLocks
import AgentCraft.Transition.Sweep
import AgentCraft.Transition.System
import AgentCraft.Transition.Trace
import AgentCraft.Transition.Window
import AgentCraft.Web.ChatMessages
import AgentCraft.Web.ChatReducer
import AgentCraft.Web.JsLiterals
import AgentCraft.Web.JsValues
import AgentCraft.Web.Reconcile
import AgentCraft.Web.SseFrames
import AgentCraft.Web.SseRoundTrip
import AgentCraft.Web.StreamingText
import AgentCraft.Web.TaskStream
import AgentCraft.Web.Text
