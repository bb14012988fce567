import EasyJob.Chrono.Basic
import Mathlib.Data.List.AList

/-!
# The domain types

Ids (`crates/common/src/id.rs`) and the types of `crates/domain/src`: policies,
triggers, actions, tasks and executions, with the source's fields and variants.

A `Uuid` is a 128-bit number; only equality, order and the printed form are
used, so it is a natural number. A Rust `HashMap` is an association list
without repeated keys (`AList`); the iteration order of the model is the order
of the list, and no result depends on it.
-/

namespace EasyJob.Domain

open EasyJob.Chrono

/-- `std::collections::HashMap`. -/
abbrev HashMap (κ υ : Type) := AList (fun _ : κ => υ)

/-- After insertions the last value for a key is there. -/
theorem lookup_foldl_insert {α κ υ : Type} [DecidableEq κ] (key : α → κ) (value : α → υ)
    (xs : List α) (map : HashMap κ υ) (k : κ) :
    (xs.foldl (fun map x => map.insert (key x) (value x)) map).lookup k =
      ((xs.reverse.find? (key · = k)).map value).or (map.lookup k) := by
  induction xs generalizing map with
  | nil => rfl
  | cons x xs ih =>
    rw [List.foldl_cons, ih, List.reverse_cons, List.find?_append, Option.map_or, Option.or_assoc]
    congr 1
    by_cases hkey : key x = k
    · rw [← hkey, AList.lookup_insert]
      simp
    · rw [AList.lookup_insert_ne (Ne.symm hkey)]
      simp [hkey]

/-! ## Ids -/

abbrev Uuid := ℕ

/-- `Display` of a `Uuid`: 32 hexadecimal digits in groups of 8-4-4-4-12. -/
def displayUuid (u : Uuid) : String :=
  let digits := (List.replicate 32 '0' ++ Nat.toDigits 16 u).reverse.take 32 |>.reverse
  let group (from_ n : ℕ) : List Char := (digits.drop from_).take n
  String.ofList (group 0 8 ++ ['-'] ++ group 8 4 ++ ['-'] ++ group 12 4 ++ ['-'] ++ group 16 4 ++
    ['-'] ++ group 20 12)

structure TaskId where
  uuid : Uuid
  deriving DecidableEq, Repr

structure TriggerId where
  uuid : Uuid
  deriving DecidableEq, Repr

structure ActionId where
  uuid : Uuid
  deriving DecidableEq, Repr

structure ExecutionId where
  uuid : Uuid
  deriving DecidableEq, Repr

/-! ## Policies (`policy.rs`) -/

inductive TaskNotificationPolicy
  | None | OnlySuccess | OnlyFailure | All
  deriving DecidableEq, Repr

inductive ConcurrencyPolicy
  | AllowParallel | SkipIfRunning | QueueOne
  deriving DecidableEq, Repr

inductive MissedRunPolicy
  | RunOnce | Skip
  deriving DecidableEq, Repr

structure RetryPolicy where
  maxRetries : ℕ := 0
  delaySecs : ℕ := 0
  deriving DecidableEq, Repr

inductive LogRetentionPolicy
  | SystemDefault
  | KeepDays (days : ℕ)
  | Permanent
  deriving DecidableEq, Repr

inductive SystemLogRetention
  | KeepDays (days : ℕ)
  | Permanent
  deriving DecidableEq, Repr

/-- `SystemSettings`, with the value of its `Default` instance. -/
structure SystemSettings where
  defaultLogRetention : SystemLogRetention := .KeepDays 7
  deriving DecidableEq, Repr

/-- `ExecutionPolicy`, with the values of its `Default` instance. -/
structure ExecutionPolicy where
  concurrencyPolicy : ConcurrencyPolicy := .SkipIfRunning
  missedRunPolicy : MissedRunPolicy := .RunOnce
  retryPolicy : RetryPolicy := {}
  timeoutSecs : Option ℕ := none
  notification : TaskNotificationPolicy := .None
  logRetention : LogRetentionPolicy := .SystemDefault
  deriving DecidableEq, Repr

/-! ## Triggers (`trigger.rs`) -/

inductive FuzzyPeriod
  | Daily
  | Weekdays
  | Weekends
  | Weekly (daysOfWeek : List Weekday)
  deriving DecidableEq, Repr

/-- `FuzzyPeriod::matches_weekday`. -/
def FuzzyPeriod.matchesWeekday : FuzzyPeriod → Weekday → Bool
  | .Daily, _ => true
  | .Weekdays, w => !(w == .Sat || w == .Sun)
  | .Weekends, w => w == .Sat || w == .Sun
  | .Weekly daysOfWeek, w => daysOfWeek.contains w

inductive NetworkEventKind
  | Connect | Disconnect | Online
  deriving DecidableEq, Repr

inductive TriggerKind
  | Once (fireAt : DateTime)
  | Daily (time : NaiveTime) (timezone : String)
  | Weekly (daysOfWeek : List Weekday) (time : NaiveTime) (timezone : String)
  | Interval (intervalSecs : ℕ) (startAt : Option DateTime)
  | AgentStarted
  | Cron (expression : String) (timezone : String)
  | Fuzzy (period : FuzzyPeriod) (windowStart windowEnd : NaiveTime) (timezone : String)
  | Network (events : List NetworkEventKind) (networkName : Option String)
  deriving DecidableEq, Repr

/-- `TriggerKind::kind_name`. -/
def TriggerKind.kindName : TriggerKind → String
  | .Once _ => "Once"
  | .Daily _ _ => "Daily"
  | .Weekly _ _ _ => "Weekly"
  | .Interval _ _ => "Interval"
  | .AgentStarted => "AgentStarted"
  | .Cron _ _ => "Cron"
  | .Fuzzy _ _ _ _ => "Fuzzy"
  | .Network _ _ => "Network"

structure Trigger where
  id : TriggerId
  taskId : TaskId
  enabled : Bool
  kind : TriggerKind
  createdAt : DateTime
  updatedAt : DateTime
  deriving DecidableEq, Repr

/-! ## Actions (`action.rs`) -/

inductive ScriptEncoding
  | Utf8 | Gbk
  deriving DecidableEq, Repr

inductive ActionKind
  | ExecuteProgram (program : String) (args : List String)
  | ExecuteShell (command : String)
  | ExecutePowerShell (script : String) (noProfile : Bool) (encoding : Option ScriptEncoding)
  | ExecuteCmd (command : String) (encoding : Option ScriptEncoding)
  deriving DecidableEq, Repr

structure Action where
  id : ActionId
  taskId : TaskId
  sequence : ℕ
  enabled : Bool
  kind : ActionKind
  deriving DecidableEq, Repr

/-! ## Tasks and executions (`task.rs`, `execution.rs`) -/

structure Task where
  id : TaskId
  name : String
  description : Option String
  enabled : Bool
  triggers : List Trigger
  actions : List Action
  executionPolicy : ExecutionPolicy
  workingDirectory : Option String
  environment : HashMap String String
  version : ℤ
  createdAt : DateTime
  updatedAt : DateTime
  deriving DecidableEq

inductive ExecutionStatus
  | Queued | Running | Succeeded | Failed | TimedOut | Cancelled | Skipped | Interrupted
  deriving DecidableEq, Repr

structure Execution where
  id : ExecutionId
  taskId : TaskId
  triggerId : Option TriggerId
  status : ExecutionStatus
  scheduledAt : Option DateTime
  startedAt : DateTime
  finishedAt : Option DateTime
  durationMs : Option ℕ
  exitCode : Option ℤ
  errorMessage : Option String
  deriving DecidableEq, Repr

/-- Model of `Execution::new` (`execution.rs` lines 32–50); `id` and `now` are what
    `ExecutionId::new` and `Utc::now` give. -/
def Execution.new (id : ExecutionId) (taskId : TaskId) (triggerId : Option TriggerId)
    (scheduledAt : Option DateTime) (now : DateTime) : Execution where
  id := id
  taskId := taskId
  triggerId := triggerId
  status := .Queued
  scheduledAt := scheduledAt
  startedAt := now
  finishedAt := none
  durationMs := none
  exitCode := none
  errorMessage := none

/-- The triggers of a task have pairwise distinct ids. `triggers.id` is a
    primary key (`migrations/20260911000000_init_schema.sql`), so `save` fails
    on any other task and every task the agent schedules has this property. -/
def Task.DistinctTriggerIds (task : Task) : Prop := (task.triggers.map Trigger.id).Nodup

instance (task : Task) : Decidable task.DistinctTriggerIds :=
  inferInstanceAs (Decidable (List.Nodup _))

/-- `task` and its trigger `tr` are both enabled: the task asks for automatic
    runs from `tr`. -/
def Task.Schedules (task : Task) (tr : TriggerId) : Prop :=
  task.enabled = true ∧ ∃ trigger ∈ task.triggers, trigger.id = tr ∧ trigger.enabled = true

theorem Task.DistinctTriggerIds.eq_of_id {task : Task} (h : task.DistinctTriggerIds)
    {a b : Trigger} (ha : a ∈ task.triggers) (hb : b ∈ task.triggers) (hid : a.id = b.id) :
    a = b :=
  List.inj_on_of_nodup_map h ha hb hid

/-- With distinct ids, searching a trigger by id finds the one in the list. -/
theorem Task.DistinctTriggerIds.find {task : Task} (h : task.DistinctTriggerIds) {tr : Trigger}
    (htr : tr ∈ task.triggers) : task.triggers.find? (fun t => t.id = tr.id) = some tr := by
  obtain ⟨t, ht⟩ : ∃ t, task.triggers.find? (fun t => t.id = tr.id) = some t := by
    apply Option.isSome_iff_exists.mp
    rw [List.find?_isSome]
    exact ⟨tr, htr, by simp⟩
  have hid : t.id = tr.id := by simpa using List.find?_some ht
  rw [ht, h.eq_of_id (List.mem_of_find?_eq_some ht) htr hid]

end EasyJob.Domain
