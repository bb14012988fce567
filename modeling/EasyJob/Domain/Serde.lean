import EasyJob.Domain.Task
import EasyJob.Lib.Json
import Mathlib.Data.List.Sort

/-!
# The JSON form of the domain types

What `serde_json::to_value` makes of the types of `crates/domain/src`: the
members of an object in the order of their names, enumerations externally tagged
except for the log retention policy. The texts of instants and times of day are
those of `chrono`.
-/

namespace EasyJob.Domain

open EasyJob.Chrono

/-- The texts that `chrono` writes. -/
structure ChronoTexts where
  dateTime : DateTime → String
  naiveTime : NaiveTime → String

variable (texts : ChronoTexts)

/-! ## Values -/

/-- `Option<T>`. -/
def optionToJson {α : Type} (toJson : α → Json) : Option α → Json
  | some x => toJson x
  | none => .null

def natToJson (n : ℕ) : Json := .num (toString n)

def intToJson (n : ℤ) : Json := .num (toString n)

def uuidToJson (u : Uuid) : Json := .str (displayUuid u)

def dateTimeToJson (t : DateTime) : Json := .str (texts.dateTime t)

def naiveTimeToJson (t : NaiveTime) : Json := .str (texts.naiveTime t)

def weekdayToJson : Weekday → Json
  | .Mon => .str "Mon"
  | .Tue => .str "Tue"
  | .Wed => .str "Wed"
  | .Thu => .str "Thu"
  | .Fri => .str "Fri"
  | .Sat => .str "Sat"
  | .Sun => .str "Sun"

/-! ## Policies -/

def TaskNotificationPolicy.toJson : TaskNotificationPolicy → Json
  | .None => .str "None"
  | .OnlySuccess => .str "OnlySuccess"
  | .OnlyFailure => .str "OnlyFailure"
  | .All => .str "All"

def ConcurrencyPolicy.toJson : ConcurrencyPolicy → Json
  | .AllowParallel => .str "AllowParallel"
  | .SkipIfRunning => .str "SkipIfRunning"
  | .QueueOne => .str "QueueOne"

def MissedRunPolicy.toJson : MissedRunPolicy → Json
  | .RunOnce => .str "RunOnce"
  | .Skip => .str "Skip"

def RetryPolicy.toJson (p : RetryPolicy) : Json :=
  .obj [("delay_secs", natToJson p.delaySecs), ("max_retries", natToJson p.maxRetries)]

/-- `#[serde(tag = "mode", content = "days")]`. -/
def LogRetentionPolicy.toJson : LogRetentionPolicy → Json
  | .SystemDefault => .obj [("mode", .str "SystemDefault")]
  | .KeepDays days => .obj [("days", natToJson days), ("mode", .str "KeepDays")]
  | .Permanent => .obj [("mode", .str "Permanent")]

def ExecutionPolicy.toJson (p : ExecutionPolicy) : Json :=
  .obj [("concurrency_policy", p.concurrencyPolicy.toJson),
    ("log_retention", p.logRetention.toJson),
    ("missed_run_policy", p.missedRunPolicy.toJson),
    ("notification", p.notification.toJson),
    ("retry_policy", p.retryPolicy.toJson),
    ("timeout_secs", optionToJson natToJson p.timeoutSecs)]

/-! ## Triggers and actions -/

def FuzzyPeriod.toJson : FuzzyPeriod → Json
  | .Daily => .str "Daily"
  | .Weekdays => .str "Weekdays"
  | .Weekends => .str "Weekends"
  | .Weekly daysOfWeek =>
    .obj [("Weekly", .obj [("days_of_week", .arr (daysOfWeek.map weekdayToJson))])]

def NetworkEventKind.toJson : NetworkEventKind → Json
  | .Connect => .str "Connect"
  | .Disconnect => .str "Disconnect"
  | .Online => .str "Online"

def TriggerKind.toJson : TriggerKind → Json
  | .Once fireAt => .obj [("Once", .obj [("fire_at", dateTimeToJson texts fireAt)])]
  | .Daily time timezone =>
    .obj [("Daily", .obj [("time", naiveTimeToJson texts time), ("timezone", .str timezone)])]
  | .Weekly daysOfWeek time timezone =>
    .obj [("Weekly", .obj [("days_of_week", .arr (daysOfWeek.map weekdayToJson)),
      ("time", naiveTimeToJson texts time), ("timezone", .str timezone)])]
  | .Interval intervalSecs startAt =>
    .obj [("Interval", .obj [("interval_secs", natToJson intervalSecs),
      ("start_at", optionToJson (dateTimeToJson texts) startAt)])]
  | .AgentStarted => .str "AgentStarted"
  | .Cron expression timezone =>
    .obj [("Cron", .obj [("expression", .str expression), ("timezone", .str timezone)])]
  | .Fuzzy period windowStart windowEnd timezone =>
    .obj [("Fuzzy", .obj [("period", period.toJson), ("timezone", .str timezone),
      ("window_end", naiveTimeToJson texts windowEnd),
      ("window_start", naiveTimeToJson texts windowStart)])]
  | .Network events networkName =>
    .obj [("Network", .obj [("events", .arr (events.map NetworkEventKind.toJson)),
      ("network_name", optionToJson Json.str networkName)])]

def Trigger.toJson (t : Trigger) : Json :=
  .obj [("created_at", dateTimeToJson texts t.createdAt), ("enabled", .bool t.enabled),
    ("id", uuidToJson t.id.uuid), ("kind", t.kind.toJson texts),
    ("task_id", uuidToJson t.taskId.uuid), ("updated_at", dateTimeToJson texts t.updatedAt)]

def ScriptEncoding.toJson : ScriptEncoding → Json
  | .Utf8 => .str "utf8"
  | .Gbk => .str "gbk"

/-- `skip_serializing_if = "Option::is_none"`. -/
def encodingMember (encoding : Option ScriptEncoding) : List (String × Json) :=
  match encoding with
  | some e => [("encoding", e.toJson)]
  | none => []

def ActionKind.toJson : ActionKind → Json
  | .ExecuteProgram program args =>
    .obj [("ExecuteProgram", .obj [("args", .arr (args.map Json.str)), ("program", .str program)])]
  | .ExecuteShell command => .obj [("ExecuteShell", .obj [("command", .str command)])]
  | .ExecutePowerShell script noProfile encoding =>
    .obj [("ExecutePowerShell", .obj (encodingMember encoding ++
      [("no_profile", .bool noProfile), ("script", .str script)]))]
  | .ExecuteCmd command encoding =>
    .obj [("ExecuteCmd", .obj (("command", .str command) :: encodingMember encoding))]

def Action.toJson (a : Action) : Json :=
  .obj [("enabled", .bool a.enabled), ("id", uuidToJson a.id.uuid), ("kind", a.kind.toJson),
    ("sequence", natToJson a.sequence), ("task_id", uuidToJson a.taskId.uuid)]

/-! ## Tasks and executions -/

/-- A map, in the order of its keys. -/
def environmentToJson (env : HashMap String String) : Json :=
  .obj (((env.entries.map fun e => (e.1, e.2)).insertionSort fun a b => a.1 ≤ b.1).map fun e =>
    (e.1, Json.str e.2))

def Task.toJson (t : Task) : Json :=
  .obj [("actions", .arr (t.actions.map Action.toJson)),
    ("created_at", dateTimeToJson texts t.createdAt),
    ("description", optionToJson Json.str t.description),
    ("enabled", .bool t.enabled),
    ("environment", environmentToJson t.environment),
    ("execution_policy", t.executionPolicy.toJson),
    ("id", uuidToJson t.id.uuid),
    ("name", .str t.name),
    ("triggers", .arr (t.triggers.map (Trigger.toJson texts))),
    ("updated_at", dateTimeToJson texts t.updatedAt),
    ("version", intToJson t.version),
    ("working_directory", optionToJson Json.str t.workingDirectory)]

def ExecutionStatus.toJson : ExecutionStatus → Json
  | .Queued => .str "Queued"
  | .Running => .str "Running"
  | .Succeeded => .str "Succeeded"
  | .Failed => .str "Failed"
  | .TimedOut => .str "TimedOut"
  | .Cancelled => .str "Cancelled"
  | .Skipped => .str "Skipped"
  | .Interrupted => .str "Interrupted"

def Execution.toJson (e : Execution) : Json :=
  .obj [("duration_ms", optionToJson natToJson e.durationMs),
    ("error_message", optionToJson Json.str e.errorMessage),
    ("exit_code", optionToJson intToJson e.exitCode),
    ("finished_at", optionToJson (dateTimeToJson texts) e.finishedAt),
    ("id", uuidToJson e.id.uuid),
    ("scheduled_at", optionToJson (dateTimeToJson texts) e.scheduledAt),
    ("started_at", dateTimeToJson texts e.startedAt),
    ("status", e.status.toJson),
    ("task_id", uuidToJson e.taskId.uuid),
    ("trigger_id", optionToJson (fun id => uuidToJson id.uuid) e.triggerId)]

end EasyJob.Domain
