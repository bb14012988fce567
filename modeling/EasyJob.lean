import EasyJob.Lib.Transition
import EasyJob.Lib.LazyHeap
import EasyJob.Lib.Table
import EasyJob.Lib.Json
import EasyJob.Lib.Utf8
import EasyJob.Lib.LossyChannel
import EasyJob.Lib.Binary64
import EasyJob.Lib.Grid
import EasyJob.Lib.TextOrder
import EasyJob.Chrono.Basic
import EasyJob.Chrono.Zone
import EasyJob.Chrono.Rfc3339
import EasyJob.Domain.Task
import EasyJob.Domain.Serde
import EasyJob.Domain.Width
import EasyJob.Domain.Uuid
import EasyJob.Persistence.TaskRepo
import EasyJob.Persistence.Sqlite
import EasyJob.Persistence.SaveLoad
import EasyJob.Persistence.Represents
import EasyJob.Persistence.FindEnabled
import EasyJob.Persistence.Snapshot
import EasyJob.Persistence.ExecutionRepo
import EasyJob.Persistence.StoredRuns
import EasyJob.Persistence.Purge
import EasyJob.Persistence.LatestRun
import EasyJob.Scheduler.Evaluator
import EasyJob.Scheduler.Queue
import EasyJob.Scheduler.EagerQueue
import EasyJob.Scheduler.Loop
import EasyJob.Scheduler.Schedule
import EasyJob.Scheduler.Refinement
import EasyJob.Scheduler.Safety
import EasyJob.Scheduler.Entries
import EasyJob.Scheduler.Reroll
import EasyJob.Scheduler.Occurrences
import EasyJob.Scheduler.ClockJump
import EasyJob.Scheduler.Interval
import EasyJob.Scheduler.Cron
import EasyJob.Executor.Manager
import EasyJob.Executor.Capture
import EasyJob.Executor.ReadStream
import EasyJob.Executor.Runner
import EasyJob.Agent.Executions
import EasyJob.Agent.QueueOne
import EasyJob.Agent.Service
import EasyJob.Agent.Registration
import EasyJob.Agent.Disable
import EasyJob.Agent.Startup
import EasyJob.Agent.LoadTasks
import EasyJob.Agent.Overview
import EasyJob.Agent.InstanceLock
import EasyJob.Ipc.Client
import EasyJob.Ipc.Protocol
import EasyJob.Ipc.Correlation
import EasyJob.Ipc.Broadcast
import EasyJob.Agent.Frames
import EasyJob.Agent.Stages
import EasyJob.Agent.Lifecycle
import EasyJob.Agent.LifecycleRuns
import EasyJob.Agent.Outcome
import EasyJob.Agent.Cancel
import EasyJob.Desktop.AgentManager
import EasyJob.Desktop.Session
import EasyJob.Desktop.SpawnPermission
import EasyJob.Desktop.Exit
import EasyJob.Frontend.StartupMode
import EasyJob.Frontend.ExecutionStore
import EasyJob.Frontend.TaskTransfer
import EasyJob.Frontend.CronShort
import EasyJob.Frontend.CliArgs
import EasyJob.Frontend.TriggerEditor
import EasyJob.Frontend.ActionEditor
import EasyJob.Frontend.TaskDiff
import EasyJob.Frontend.TaskMerge
import EasyJob.Platform.ElevatedPs
import EasyJob.Platform.MacosScripts
import EasyJob.Scheduler.CronField
import EasyJob.Scheduler.CronNext
import EasyJob.Scheduler.DaySearch
import EasyJob.Scheduler.OncePerDay
import EasyJob.Scheduler.FuzzyWindow
import EasyJob.Scheduler.FuzzyPlacement
import EasyJob.Platform.DaemonPlist
import EasyJob.Platform.ServiceCommand
import EasyJob.Agent.MacosNetwork
import EasyJob.Agent.WindowsNetwork
import EasyJob.Frontend.LogCache
import EasyJob.Desktop.MacosAdmin
import EasyJob.Agent.LiveOutput
import EasyJob.Scheduler.Chronology
import EasyJob.Domain.RoundTrip
