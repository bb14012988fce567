import EasyJob.Persistence.LatestRun
import EasyJob.Persistence.Purge
import EasyJob.Scheduler.Queue

/-!
# The overview of the tasks

Model of `task.overview` (`apps/agent/src/service.rs` lines 475–497 and 895–937): for
every task its triggers with their next times and its last run.

* `latest_run_per_task`: the runs that `find_latest_run_per_task` finds, and that the
  overview shows, are the latest runs of their tasks.
-/

namespace EasyJob.Agent

open EasyJob.Chrono EasyJob.Domain EasyJob.Persistence.Sqlite EasyJob.Scheduler

/-! ## The handler -/

structure TriggerOverview where
  triggerId : TriggerId
  nextFireAt : Option DateTime
  deriving DecidableEq, Repr

structure LastRunOverview where
  status : ExecutionStatus
  startedAt : DateTime
  finishedAt : Option DateTime
  durationMs : Option ℕ
  exitCode : Option ℤ
  errorMessage : Option String
  deriving DecidableEq, Repr

structure TaskOverviewEntry where
  taskId : TaskId
  triggers : List TriggerOverview
  lastRun : Option LastRunOverview
  deriving DecidableEq, Repr

def LastRunOverview.ofRun (run : Execution) : LastRunOverview where
  status := run.status
  startedAt := run.startedAt
  finishedAt := run.finishedAt
  durationMs := run.durationMs
  exitCode := run.exitCode
  errorMessage := run.errorMessage

/-- The body of the `map` (lines 912–932). -/
def overviewEntry (latestRuns : HashMap TaskId Execution)
    (nextByTrigger : HashMap (TaskId × TriggerId) DateTime) (task : Task) : TaskOverviewEntry where
  taskId := task.id
  triggers := task.triggers.map fun trigger =>
    ⟨trigger.id, nextByTrigger.lookup (task.id, trigger.id)⟩
  lastRun := (latestRuns.lookup task.id).map LastRunOverview.ofRun

section Overview

variable (texts : Texts) (reader : RunReader) (maxVariables : ℕ)
  (fetch : List TaskRunRow → List TaskRunRow) (now : TaskRunRow → DateTime)

/-- Model of `task.overview`; `tasks` is what `find_all` gives, and `queue` the queue of the
    scheduler. -/
def taskOverview (db : Database) (tasks : List Task) (queue : ScheduleQueue) :
    Except RunError (List TaskOverviewEntry) := do
  let latestRuns ← findLatestRunPerTask texts reader maxVariables fetch now db (tasks.map Task.id)
  return tasks.map (overviewEntry latestRuns queue.nextFireByTrigger)

end Overview

/-! ## The last runs -/

/-- The entry is one for the task, with its latest run if it has any. -/
structure ShowsLatest (runs : List Execution) (task : Task) (entry : TaskOverviewEntry) : Prop where
  taskId : entry.taskId = task.id
  lastRun : ∀ run, IsLatest runs task.id run → entry.lastRun = some (.ofRun run)
  noRun : (∀ run ∈ runs, run.taskId ≠ task.id) → entry.lastRun = none

/-- The map has exactly the listed tasks with a run as its keys, each with its latest run, and the
    overview shows these runs. -/
theorem latest_run_per_task (texts : Texts) (reader : RunReader) (hreader : reader.RoundTrips)
    (maxVariables : ℕ) (fetch : List TaskRunRow → List TaskRunRow)
    (hfetch : ∀ rows, (fetch rows).Perm rows) (now : TaskRunRow → DateTime) (db : Database)
    (runs : List Execution) (h : Stores texts db runs) (hcomp : Comparable texts runs)
    (hround : ∀ run ∈ runs, InstantsRoundTrip texts run) :
    (∀ taskIds : List TaskId, (∀ id ∈ taskIds, id.uuid.InRange) → taskIds.length ≤ maxVariables →
      ∃ latest, findLatestRunPerTask texts reader maxVariables fetch now db taskIds = .ok latest ∧
        (∀ id, id ∈ latest ↔ id ∈ taskIds ∧ ∃ run ∈ runs, run.taskId = id) ∧
        ∀ id run, latest.lookup id = some run → IsLatest runs id run) ∧
    ∀ (tasks : List Task) (queue : ScheduleQueue), (∀ task ∈ tasks, task.id.uuid.InRange) →
      tasks.length ≤ maxVariables →
      ∃ entries, taskOverview texts reader maxVariables fetch now db tasks queue = .ok entries ∧
        List.Forall₂ (ShowsLatest runs) tasks entries := by
  constructor
  · intro taskIds hids hlength
    obtain ⟨latest, hok, hlookup⟩ :=
      findLatestRunPerTask_lookup hreader h hcomp hround hfetch now hids hlength
    refine ⟨latest, hok, fun id => ?_, fun id run hrun => ((hlookup id run).mp hrun).2⟩
    rw [← AList.lookup_isSome, Option.isSome_iff_exists]
    constructor
    · rintro ⟨run, hrun⟩
      obtain ⟨hid, hlatest⟩ := (hlookup id run).mp hrun
      exact ⟨hid, run, hlatest.mem, hlatest.taskId⟩
    · rintro ⟨hid, hruns⟩
      obtain ⟨run, hrun⟩ := exists_isLatest hruns
      exact ⟨run, (hlookup id run).mpr ⟨hid, hrun⟩⟩
  · intro tasks queue hids hlength
    have hids' : ∀ id ∈ tasks.map Task.id, id.uuid.InRange := by
      intro id hid
      obtain ⟨task, htask, rfl⟩ := List.mem_map.mp hid
      exact hids task htask
    have hlength' : (tasks.map Task.id).length ≤ maxVariables := by rwa [List.length_map]
    obtain ⟨latest, hok, hlookup⟩ :=
      findLatestRunPerTask_lookup hreader h hcomp hround hfetch now hids' hlength'
    refine ⟨tasks.map (overviewEntry latest queue.nextFireByTrigger), ?_, ?_⟩
    · rw [taskOverview, hok]
      rfl
    rw [List.forall₂_map_right_iff, List.forall₂_same]
    intro task htask
    have hmem : task.id ∈ tasks.map Task.id := List.mem_map_of_mem htask
    refine ⟨rfl, fun run hrun => ?_, fun hnone => ?_⟩
    · rw [overviewEntry, (hlookup task.id run).mpr ⟨hmem, hrun⟩, Option.map_some]
    · have hlookupNone : latest.lookup task.id = none := by
        rw [← Option.not_isSome_iff_eq_none, Option.isSome_iff_exists]
        rintro ⟨run, hrun⟩
        have hlatest := ((hlookup task.id run).mp hrun).2
        exact hnone run hlatest.mem hlatest.taskId
      rw [overviewEntry, hlookupNone, Option.map_none]

/-! ## Runs of two years -/

/-- Reads the texts that `serde_json` writes for a status. -/
def parseStatusText (text : String) : Option ExecutionStatus :=
  [.Queued, .Running, .Succeeded, .Failed, .TimedOut, .Cancelled, .Skipped, .Interrupted].find?
    (statusText · = text)

def displayReader : RunReader := ⟨parseDisplay, parseStatusText⟩

theorem parseStatusText_statusText (status : ExecutionStatus) :
    parseStatusText (statusText status) = some status := by
  cases status <;> decide +kernel

theorem displayReader_roundTrips : displayReader.RoundTrips := by
  constructor <;> simp only [displayReader]
  · exact fun u hu => parseDisplay_displayUuid hu
  · exact parseStatusText_statusText

/-- Reads these three instants. -/
def yearTexts : Texts :=
  { twoActionsTexts with
    dateTime := .among toRfc3339 [year10000 - 1, year10000 - 250000000, year10000] }

/-- The database after these runs were written. -/
def runsDatabase (runs : List Execution) : Database :=
  (executeAll (upsertStatement yearTexts twoActions :: runs.map (createRun yearTexts)) .empty).getD
    .empty

theorem twoActions_inRange : twoActions.id.uuid.InRange := ⟨by decide⟩

theorem inRange_succeededRun {id : Uuid} (hid : id < 16 ^ 32) (startedAt : DateTime) :
    InRange (succeededRun id startedAt) :=
  ⟨⟨hid⟩, twoActions_inRange, fun _ h => absurd h (by simp [succeededRun, Execution.new]),
    fun _ h => absurd h (by simp [succeededRun, Execution.new])⟩

/-- Two runs of the last second of the year 9999. -/
def lastSecond : List Execution :=
  [succeededRun 1 (year10000 - 1), succeededRun 2 (year10000 - 250000000)]

theorem lastSecond_stored : Stores yearTexts (runsDatabase lastSecond) lastSecond where
  rows := by decide +kernel
  inRange := by
    rw [lastSecond, List.forall_mem_cons, List.forall_mem_singleton]
    exact ⟨inRange_succeededRun (by decide) _, inRange_succeededRun (by decide) _⟩

theorem instantsRoundTrip_succeededRun {id : Uuid} {startedAt : DateTime}
    (h : yearTexts.dateTime.RoundTrips startedAt) :
    InstantsRoundTrip yearTexts (succeededRun id startedAt) :=
  ⟨fun _ h => absurd h (by simp [succeededRun, Execution.new]), h,
    fun _ h => absurd h (by simp [succeededRun, Execution.new])⟩

/-- A task that has not run. -/
def idleTask : Task := { twoActions with id := ⟨9⟩ }

/-- Of a task that is listed twice the map has the latest run, and nothing of one without runs.
    The overview shows the latest run of the one task and none of the other. -/
theorem latest_run_per_task_lastSecond :
    (∃ latest,
      findLatestRunPerTask yearTexts displayReader 32766 id (fun _ => 0) (runsDatabase lastSecond)
        [twoActions.id, twoActions.id, idleTask.id] = .ok latest ∧
      twoActions.id ∈ latest ∧ idleTask.id ∉ latest) ∧
    ∃ shown idle,
      taskOverview yearTexts displayReader 32766 id (fun _ => 0) (runsDatabase lastSecond)
        [twoActions, idleTask] .new = .ok [shown, idle] ∧
      shown.lastRun = some (.ofRun (succeededRun 1 (year10000 - 1))) ∧ idle.lastRun = none := by
  have hround : ∀ run ∈ lastSecond, InstantsRoundTrip yearTexts run := by
    rw [lastSecond, List.forall_mem_cons, List.forall_mem_singleton]
    exact ⟨instantsRoundTrip_succeededRun (by decide +kernel),
      instantsRoundTrip_succeededRun (by decide +kernel)⟩
  have hidle : idleTask.id.uuid.InRange := ⟨by decide⟩
  obtain ⟨hmap, hoverview⟩ := latest_run_per_task yearTexts displayReader
    displayReader_roundTrips 32766 id (fun _ => .refl _) (fun _ => 0) (runsDatabase lastSecond)
    lastSecond lastSecond_stored ⟨fun _ => rfl, by decide +kernel⟩ hround
  constructor
  · have hids : ∀ id ∈ [twoActions.id, twoActions.id, idleTask.id], id.uuid.InRange := by
      rw [List.forall_mem_cons, List.forall_mem_cons, List.forall_mem_singleton]
      exact ⟨twoActions_inRange, twoActions_inRange, hidle⟩
    obtain ⟨latest, hok, hkeys, -⟩ := hmap _ hids (by decide)
    refine ⟨latest, hok, (hkeys _).mpr ⟨by decide, by decide +kernel⟩, fun hmem => ?_⟩
    have hruns := ((hkeys _).mp hmem).2
    revert hruns
    decide +kernel
  · have hids : ∀ task ∈ [twoActions, idleTask], task.id.uuid.InRange := by
      rw [List.forall_mem_cons, List.forall_mem_singleton]
      exact ⟨twoActions_inRange, hidle⟩
    obtain ⟨entries, hok, hshows⟩ := hoverview [twoActions, idleTask] .new hids (by decide)
    cases hshows with
    | cons hshown hrest =>
      cases hrest with
      | cons hidle hnil =>
        cases hnil
        refine ⟨_, _, hok, hshown.lastRun _ ⟨?_, ?_, ?_⟩, hidle.noRun ?_⟩
        all_goals decide +kernel

/-- The last nanosecond of the year 9999, and the first of the year 10000. -/
def newYear : List Execution := [succeededRun 1 (year10000 - 1), succeededRun 2 year10000]

theorem newYear_stored : Stores yearTexts (runsDatabase newYear) newYear where
  rows := by decide +kernel
  inRange := by
    rw [newYear, List.forall_mem_cons, List.forall_mem_singleton]
    exact ⟨inRange_succeededRun (by decide) _, inRange_succeededRun (by decide) _⟩

/-- The run of the year 10000 has a `started_at` before all others. -/
theorem latest_run_misses_year10000 : Stores yearTexts (runsDatabase newYear) newYear ∧
    ∃ latest, findLatestRunPerTask yearTexts displayReader 32766 id (fun _ => 0)
      (runsDatabase newYear) [twoActions.id] = .ok latest ∧
    latest.lookup twoActions.id = some (succeededRun 1 (year10000 - 1)) ∧
    ¬IsLatest newYear twoActions.id (succeededRun 1 (year10000 - 1)) := by
  have hfound : (findLatestRunPerTask yearTexts displayReader 32766 id (fun _ => 0)
      (runsDatabase newYear) [twoActions.id]).toOption.bind (·.lookup twoActions.id) =
        some (succeededRun 1 (year10000 - 1)) := by
    decide +kernel
  obtain ⟨latest, hlatest, hlookup⟩ := Option.bind_eq_some_iff.mp hfound
  refine ⟨newYear_stored, latest, ?_, hlookup, fun h => ?_⟩
  · cases hok : findLatestRunPerTask yearTexts displayReader 32766 id (fun _ => 0)
      (runsDatabase newYear) [twoActions.id] with
    | error e =>
      rw [hok] at hlatest
      cases hlatest
    | ok found =>
      rw [hok] at hlatest
      exact congrArg Except.ok (Option.some.inj hlatest)
  · have hgreatest := h.greatest (succeededRun 2 year10000) (by decide +kernel) rfl
    revert hgreatest
    decide +kernel

end EasyJob.Agent
