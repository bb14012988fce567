import EasyJob.Domain.Serde
import EasyJob.Domain.Uuid
import EasyJob.Lib.JsonRecord

/-!
# Reading the domain types from JSON

What `serde_json::from_value` accepts for the types of `crates/domain/src`, which
derive `Deserialize`. The texts of ids, instants, times of day and days of the
week are read by `uuid` and `chrono`.
-/

namespace EasyJob.Domain

open EasyJob.Chrono

/-- What `uuid` and `chrono` read from a text. -/
structure Readers where
  uuid : String → Option Uuid
  dateTime : String → Option DateTime
  naiveTime : String → Option NaiveTime
  weekday : String → Option Weekday

variable (readers : Readers)

/-! ## Values -/

/-- A text that `uuid` reads. -/
def uuidOfJson (doc : Json) : Option Uuid := doc.toString?.bind readers.uuid

def taskIdOfJson (doc : Json) : Option TaskId := (uuidOfJson readers doc).map TaskId.mk

def triggerIdOfJson (doc : Json) : Option TriggerId := (uuidOfJson readers doc).map TriggerId.mk

def actionIdOfJson (doc : Json) : Option ActionId := (uuidOfJson readers doc).map ActionId.mk

/-- A text that `chrono` reads. -/
def dateTimeOfJson (doc : Json) : Option DateTime := doc.toString?.bind readers.dateTime

def naiveTimeOfJson (doc : Json) : Option NaiveTime := doc.toString?.bind readers.naiveTime

def weekdayOfJson (doc : Json) : Option Weekday := doc.toString?.bind readers.weekday

/-- An integer literal of at most 32 bits. -/
def u32OfJson : Json → Option ℕ := Json.unsigned? (2 ^ 32)

def u64OfJson : Json → Option ℕ := Json.unsigned? (2 ^ 64)

def i64OfJson : Json → Option ℤ := Json.signed? (2 ^ 63)

/-! ## Policies (`policy.rs`) -/

/-- The name of a variant. -/
def TaskNotificationPolicy.ofJson : Json → Option TaskNotificationPolicy :=
  Json.unitVariant [("None", .None), ("OnlySuccess", .OnlySuccess), ("OnlyFailure", .OnlyFailure),
    ("All", .All)]

def ConcurrencyPolicy.ofJson : Json → Option ConcurrencyPolicy :=
  Json.unitVariant [("AllowParallel", .AllowParallel), ("SkipIfRunning", .SkipIfRunning),
    ("QueueOne", .QueueOne)]

def MissedRunPolicy.ofJson : Json → Option MissedRunPolicy :=
  Json.unitVariant [("RunOnce", .RunOnce), ("Skip", .Skip)]

/-- Both fields have to be given. -/
def RetryPolicy.ofJson (doc : Json) : Option RetryPolicy := do
  let f ← Json.fields ["max_retries", "delay_secs"] doc
  let maxRetries ← f.required "max_retries" u32OfJson
  let delaySecs ← f.required "delay_secs" u64OfJson
  return { maxRetries := maxRetries, delaySecs := delaySecs }

/-- `#[serde(tag = "mode", content = "days")]`. -/
def LogRetentionPolicy.ofJson (doc : Json) : Option LogRetentionPolicy := do
  let (mode, days) ← Json.adjacent "mode" "days" doc
  match mode with
  | "SystemDefault" => (Json.unit? days).map fun _ => .SystemDefault
  | "KeepDays" => (days.bind u32OfJson).map .KeepDays
  | "Permanent" => (Json.unit? days).map fun _ => .Permanent
  | _ => none

/-- `#[serde(tag = "mode", content = "days")]`. -/
def SystemLogRetention.ofJson (doc : Json) : Option SystemLogRetention := do
  let (mode, days) ← Json.adjacent "mode" "days" doc
  match mode with
  | "KeepDays" => (days.bind u32OfJson).map .KeepDays
  | "Permanent" => (Json.unit? days).map fun _ => .Permanent
  | _ => none

/-- A record with one field. -/
def SystemSettings.ofJson (doc : Json) : Option SystemSettings := do
  let f ← Json.fields ["default_log_retention"] doc
  let defaultLogRetention ← f.required "default_log_retention" SystemLogRetention.ofJson
  return { defaultLogRetention := defaultLogRetention }

/-- `notification` and `log_retention` have `#[serde(default)]`. -/
def ExecutionPolicy.ofJson (doc : Json) : Option ExecutionPolicy := do
  let f ← Json.fields ["concurrency_policy", "missed_run_policy", "retry_policy", "timeout_secs",
    "notification", "log_retention"] doc
  let concurrencyPolicy ← f.required "concurrency_policy" ConcurrencyPolicy.ofJson
  let missedRunPolicy ← f.required "missed_run_policy" MissedRunPolicy.ofJson
  let retryPolicy ← f.required "retry_policy" RetryPolicy.ofJson
  let timeoutSecs ← f.optional "timeout_secs" u64OfJson
  let notification ← f.defaulted "notification" .None TaskNotificationPolicy.ofJson
  let logRetention ← f.defaulted "log_retention" .SystemDefault LogRetentionPolicy.ofJson
  return {
    concurrencyPolicy := concurrencyPolicy, missedRunPolicy := missedRunPolicy,
    retryPolicy := retryPolicy, timeoutSecs := timeoutSecs, notification := notification,
    logRetention := logRetention }

/-! ## Triggers (`trigger.rs`) -/

/-- `Weekly` has a field, the other variants have none. -/
def FuzzyPeriod.ofJson (doc : Json) : Option FuzzyPeriod := do
  let (name, content) ← Json.variant doc
  match name with
  | "Daily" => (Json.unit? content).map fun _ => .Daily
  | "Weekdays" => (Json.unit? content).map fun _ => .Weekdays
  | "Weekends" => (Json.unit? content).map fun _ => .Weekends
  | "Weekly" => do
    let f ← Json.variantFields ["days_of_week"] content
    let daysOfWeek ← f.required "days_of_week" (Json.elements? (weekdayOfJson readers))
    return .Weekly daysOfWeek
  | _ => none

def NetworkEventKind.ofJson : Json → Option NetworkEventKind :=
  Json.unitVariant [("Connect", .Connect), ("Disconnect", .Disconnect), ("Online", .Online)]

/-- Externally tagged; `start_at` and `network_name` may be missing or `null`. -/
def TriggerKind.ofJson (doc : Json) : Option TriggerKind := do
  let (name, content) ← Json.variant doc
  match name with
  | "Once" => do
    let f ← Json.variantFields ["fire_at"] content
    let fireAt ← f.required "fire_at" (dateTimeOfJson readers)
    return .Once fireAt
  | "Daily" => do
    let f ← Json.variantFields ["time", "timezone"] content
    let time ← f.required "time" (naiveTimeOfJson readers)
    let timezone ← f.required "timezone" Json.toString?
    return .Daily time timezone
  | "Weekly" => do
    let f ← Json.variantFields ["days_of_week", "time", "timezone"] content
    let daysOfWeek ← f.required "days_of_week" (Json.elements? (weekdayOfJson readers))
    let time ← f.required "time" (naiveTimeOfJson readers)
    let timezone ← f.required "timezone" Json.toString?
    return .Weekly daysOfWeek time timezone
  | "Interval" => do
    let f ← Json.variantFields ["interval_secs", "start_at"] content
    let intervalSecs ← f.required "interval_secs" u64OfJson
    let startAt ← f.optional "start_at" (dateTimeOfJson readers)
    return .Interval intervalSecs startAt
  | "AgentStarted" => (Json.unit? content).map fun _ => .AgentStarted
  | "Cron" => do
    let f ← Json.variantFields ["expression", "timezone"] content
    let expression ← f.required "expression" Json.toString?
    let timezone ← f.required "timezone" Json.toString?
    return .Cron expression timezone
  | "Fuzzy" => do
    let f ← Json.variantFields ["period", "window_start", "window_end", "timezone"] content
    let period ← f.required "period" (FuzzyPeriod.ofJson readers)
    let windowStart ← f.required "window_start" (naiveTimeOfJson readers)
    let windowEnd ← f.required "window_end" (naiveTimeOfJson readers)
    let timezone ← f.required "timezone" Json.toString?
    return .Fuzzy period windowStart windowEnd timezone
  | "Network" => do
    let f ← Json.variantFields ["events", "network_name"] content
    let events ← f.required "events" (Json.elements? NetworkEventKind.ofJson)
    let networkName ← f.optional "network_name" Json.toString?
    return .Network events networkName
  | _ => none

/-- All fields have to be given. -/
def Trigger.ofJson (doc : Json) : Option Trigger := do
  let f ← Json.fields ["id", "task_id", "enabled", "kind", "created_at", "updated_at"] doc
  let id ← f.required "id" (triggerIdOfJson readers)
  let taskId ← f.required "task_id" (taskIdOfJson readers)
  let enabled ← f.required "enabled" Json.toBool?
  let kind ← f.required "kind" (TriggerKind.ofJson readers)
  let createdAt ← f.required "created_at" (dateTimeOfJson readers)
  let updatedAt ← f.required "updated_at" (dateTimeOfJson readers)
  return {
    id := id, taskId := taskId, enabled := enabled, kind := kind, createdAt := createdAt,
    updatedAt := updatedAt }

/-! ## Actions (`action.rs`) -/

/-- Each variant is renamed. -/
def ScriptEncoding.ofJson : Json → Option ScriptEncoding :=
  Json.unitVariant [("utf8", .Utf8), ("gbk", .Gbk)]

/-- Externally tagged; `encoding` has `#[serde(default)]`. -/
def ActionKind.ofJson (doc : Json) : Option ActionKind := do
  let (name, content) ← Json.variant doc
  match name with
  | "ExecuteProgram" => do
    let f ← Json.variantFields ["program", "args"] content
    let program ← f.required "program" Json.toString?
    let args ← f.required "args" (Json.elements? Json.toString?)
    return .ExecuteProgram program args
  | "ExecuteShell" => do
    let f ← Json.variantFields ["command"] content
    let command ← f.required "command" Json.toString?
    return .ExecuteShell command
  | "ExecutePowerShell" => do
    let f ← Json.variantFields ["script", "no_profile", "encoding"] content
    let script ← f.required "script" Json.toString?
    let noProfile ← f.required "no_profile" Json.toBool?
    let encoding ← f.defaulted "encoding" none (Json.Fields.orNull ScriptEncoding.ofJson)
    return .ExecutePowerShell script noProfile encoding
  | "ExecuteCmd" => do
    let f ← Json.variantFields ["command", "encoding"] content
    let command ← f.required "command" Json.toString?
    let encoding ← f.defaulted "encoding" none (Json.Fields.orNull ScriptEncoding.ofJson)
    return .ExecuteCmd command encoding
  | _ => none

/-- All fields have to be given. -/
def Action.ofJson (doc : Json) : Option Action := do
  let f ← Json.fields ["id", "task_id", "sequence", "enabled", "kind"] doc
  let id ← f.required "id" (actionIdOfJson readers)
  let taskId ← f.required "task_id" (taskIdOfJson readers)
  let sequence ← f.required "sequence" u32OfJson
  let enabled ← f.required "enabled" Json.toBool?
  let kind ← f.required "kind" ActionKind.ofJson
  return { id := id, taskId := taskId, sequence := sequence, enabled := enabled, kind := kind }

/-! ## Tasks (`task.rs`) -/

/-- A map; the last value given for a name stays. -/
def environmentOfJson : Json → Option (HashMap String String)
  | .obj members => do
    let entries ← members.mapM fun member => member.2.toString?.map fun value => (member.1, value)
    return entries.foldl (fun env entry => env.insert entry.1 entry.2) ∅
  | _ => none

/-- `description` and `working_directory` may be missing or `null`; all other fields have to be
    given. -/
def Task.ofJson (doc : Json) : Option Task := do
  let f ← Json.fields ["id", "name", "description", "enabled", "triggers", "actions",
    "execution_policy", "working_directory", "environment", "version", "created_at", "updated_at"]
    doc
  let id ← f.required "id" (taskIdOfJson readers)
  let name ← f.required "name" Json.toString?
  let description ← f.optional "description" Json.toString?
  let enabled ← f.required "enabled" Json.toBool?
  let triggers ← f.required "triggers" (Json.elements? (Trigger.ofJson readers))
  let actions ← f.required "actions" (Json.elements? (Action.ofJson readers))
  let executionPolicy ← f.required "execution_policy" ExecutionPolicy.ofJson
  let workingDirectory ← f.optional "working_directory" Json.toString?
  let environment ← f.required "environment" environmentOfJson
  let version ← f.required "version" i64OfJson
  let createdAt ← f.required "created_at" (dateTimeOfJson readers)
  let updatedAt ← f.required "updated_at" (dateTimeOfJson readers)
  return {
    id := id, name := name, description := description, enabled := enabled,
    triggers := triggers, actions := actions, executionPolicy := executionPolicy,
    workingDirectory := workingDirectory, environment := environment, version := version,
    createdAt := createdAt, updatedAt := updatedAt }

end EasyJob.Domain
