import OpenCollab.Json
import OpenCollab.Text
import OpenCollab.Message
import OpenCollab.Lib.Segments
import OpenCollab.Lib.Effect
import OpenCollab.Lib.Dict
import OpenCollab.Lib.Assembly
import OpenCollab.Lib.Settle
import OpenCollab.Lib.FirstOccurrences
import OpenCollab.Lib.LineFrames
import OpenCollab.Shaping.Spans
import OpenCollab.Shaping.Projection
import OpenCollab.Shaping.Store
import OpenCollab.Shaping.Rewrite
import OpenCollab.Shaping.ToolBudget
import OpenCollab.Shaping.Reactive
import OpenCollab.Shaping.Eager
import OpenCollab.Shaping.PrefixStable
import OpenCollab.Shaping.Snip
import OpenCollab.Shaping.TokenEstimation
import OpenCollab.Shaping.SnipExact
import OpenCollab.Shaping.AutoCompact
import OpenCollab.Shaping.Pipeline
import OpenCollab.Session.Pending
import OpenCollab.Session.Turn
import OpenCollab.Session.State
import OpenCollab.Session.World
import OpenCollab.Session.History
import OpenCollab.Session.Protocol
import OpenCollab.Session.Budget
import OpenCollab.Session.Completion
import OpenCollab.Session.ToolBatch
import OpenCollab.Session.Precheck
import OpenCollab.Session.Run
import OpenCollab.Session.Facade
import OpenCollab.Session.Exchange
import OpenCollab.Session.Snapshot
import OpenCollab.Session.Lineage
import OpenCollab.Session.Integrity
import OpenCollab.Session.StepBound
import OpenCollab.Session.Reserve
import OpenCollab.Session.Allowance
import OpenCollab.Session.Storage
import OpenCollab.Session.ToolLoops
import OpenCollab.Session.LoopPermits
import OpenCollab.Session.Persistable
import OpenCollab.Session.Thinking
import OpenCollab.Session.ThinkingRuns
import OpenCollab.Scheduler.Pool
import OpenCollab.Scheduler.Commitment
import OpenCollab.Workflow.Weave
import OpenCollab.Workflow.WeaveReserve
import OpenCollab.Workflow.Budget
import OpenCollab.Workflow.BudgetRuns
import OpenCollab.Workflow.Reconstruct
import OpenCollab.Workflow.ReconstructRuns
import OpenCollab.Workflow.DuoRecords
import OpenCollab.Workflow.DuoSelection
import OpenCollab.Scheduler.Envelope
import OpenCollab.Scheduler.Unanswered
import OpenCollab.Scheduler.Mailbox
import OpenCollab.Scheduler.Inbox
import OpenCollab.Scheduler.Messaging
import OpenCollab.Scheduler.Reading
import OpenCollab.Scheduler.Recovery
import OpenCollab.Team.Roles
import OpenCollab.Team.Policy
import OpenCollab.Provider.ChatResponse
import OpenCollab.Provider.Markup
import OpenCollab.Provider.ChatStream
import OpenCollab.Provider.ResponsesOutput
import OpenCollab.Provider.ResponsesStream
import OpenCollab.Provider.ResponsesReceived
import OpenCollab.Provider.ResponsesAgreement
import OpenCollab.Provider.StreamAssembly
import OpenCollab.Provider.AttemptUsage
import OpenCollab.Patch.LineReplace
import OpenCollab.Patch.Hunks
import OpenCollab.Patch.Apply
import OpenCollab.Patch.Diff
import OpenCollab.Patch.Exact
import OpenCollab.Patch.Paths
import OpenCollab.Patch.WrittenPatch
import OpenCollab.Patch.QuotePath
import OpenCollab.Patch.Utf8
import OpenCollab.Patch.DirectoryPatch
import OpenCollab.Patch.StrReplace
import OpenCollab.Workflow.DuoEvidence
import OpenCollab.Shaping.TruncationNotice
import OpenCollab.Shaping.Reports
import OpenCollab.Shaping.ContextPressure
import OpenCollab.Shaping.SummaryPrompt
import OpenCollab.Shaping.Summarizer
import OpenCollab.Team.ChildRuns
import OpenCollab.Team.EnvironmentPool
import OpenCollab.Files.TextRange
import OpenCollab.Files.FileRead
import OpenCollab.Tools.Output
import OpenCollab.Process.Output
import OpenCollab.Patch.SchedulerDiff
import OpenCollab.Patch.ReadersAgree
import OpenCollab.Patch.DeliveryFiles
import OpenCollab.Patch.DeliveryNames
import OpenCollab.Process.Registry
import OpenCollab.Trace.Writer
import OpenCollab.Trace.Tracer
import OpenCollab.Trace.Recovery
import OpenCollab.Transfer.Files
import OpenCollab.Transfer.Unpack
import OpenCollab.Transfer.Pack
import OpenCollab.Transfer.Publish
import OpenCollab.Session.Autosave
import OpenCollab.Session.Journal
import OpenCollab.Session.JournalRuns
import OpenCollab.Schema.Meaning
import OpenCollab.Provider.ResponsesInput
import OpenCollab.Provider.AnthropicInput
import OpenCollab.Provider.AnthropicOutput
import OpenCollab.Scheduler.Join
import OpenCollab.Workflow.TaskSlotsRuns
