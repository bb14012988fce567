import EasyJob.Chrono.Rfc3339
import EasyJob.Persistence.StoredRuns

/-!
# The retention purge

`purge_expired_runs` (`crates/persistence/src/execution_repo.rs` lines 151–169)
compares `started_at` with the cutoff as texts. With the texts of `to_rfc3339` that
is the order of the instants up to the year 9999, whatever number of digits the
fractions have.

* `deleteRuns_deleted`: what a `DELETE FROM task_runs` deletes, with its cascade.
* `purge_exact`: the purge deletes exactly the runs of the task that started before
  the cutoff and are not `Running`.
-/

namespace EasyJob.Persistence.Sqlite

open EasyJob.Chrono EasyJob.Domain

/-! ## Deleting runs -/

/-- `rows_affected` of `DELETE FROM task_runs WHERE p`, which counts no row of the cascade. -/
def Database.rowsAffected (db : Database) (p : TaskRunRow → Bool) : ℕ := db.taskRuns.rows.countP p

/-- The runs that satisfy `p` and their outputs are gone from `db`, and nothing else is. -/
structure Deleted (p : TaskRunRow → Bool) (db db' : Database) : Prop where
  taskRuns : db'.taskRuns.rows = db.taskRuns.rows.filter fun row => !p row
  runOutputs : db'.runOutputs.rows = db.runOutputs.rows.filter fun output =>
    !db.taskRuns.rows.any fun row => p row && decide (row.id = output.runId)
  outputSeq : db'.outputSeq = db.outputSeq
  tasks : db'.tasks = db.tasks
  triggers : db'.triggers = db.triggers
  actions : db'.actions = db.actions

theorem deleteRuns_deleted (db : Database) (p : TaskRunRow → Bool) :
    Deleted p db (db.deleteRuns p) where
  taskRuns := rfl
  runOutputs := db.runOutputs_run.rows_cascade_deleteWhere p
  outputSeq := rfl
  tasks := rfl
  triggers := rfl
  actions := rfl

theorem Deleted.congr {p q : TaskRunRow → Bool} {db db' : Database} (h : Deleted p db db')
    (hpq : ∀ row ∈ db.taskRuns.rows, p row = q row) : Deleted q db db' := by
  have hany : ∀ output : RunOutputRow,
      (db.taskRuns.rows.any fun row => p row && decide (row.id = output.runId)) =
        db.taskRuns.rows.any fun row => q row && decide (row.id = output.runId) := by
    intro output
    rw [Bool.eq_iff_iff, List.any_eq_true, List.any_eq_true]
    refine exists_congr fun row => and_congr_right fun hrow => ?_
    rw [hpq row hrow]
  refine ⟨?_, ?_, h.outputSeq, h.tasks, h.triggers, h.actions⟩
  · rw [h.taskRuns]
    exact List.filter_congr fun row hrow => by rw [hpq row hrow]
  · rw [h.runOutputs]
    exact List.filter_congr fun output _ => by rw [hany output]

/-! ## The purge -/

section Purge

variable (texts : Texts) (taskId : TaskId) (before : DateTime)

/-- The `WHERE` of `purge_expired_runs`. -/
def isExpired (row : TaskRunRow) : Bool :=
  decide (row.taskId = TaskId.text taskId) &&
    decide (row.startedAt < texts.dateTime.encode before) && decide (row.status ≠ "\"Running\"")

/-- What `purge_expired_runs` returns. -/
def purgedRuns (db : Database) : ℕ := db.rowsAffected (isExpired texts taskId before)

end Purge

/-- Every `started_at` is the text of an instant of the years 0 to 9999. -/
structure WrittenStarts (texts : Texts) (db : Database) (startedAt : TaskRunRow → DateTime) :
    Prop where
  text : ∀ row ∈ db.taskRuns.rows, row.startedAt = texts.dateTime.encode (startedAt row)
  year : ∀ row ∈ db.taskRuns.rows, 0 ≤ year (startedAt row) ∧ year (startedAt row) ≤ 9999

/-- The run is one of the task, started before `before` and is not `Running`. -/
def startedBefore (startedAt : TaskRunRow → DateTime) (taskId : TaskId) (before : DateTime)
    (row : TaskRunRow) : Bool :=
  decide (row.taskId = TaskId.text taskId) && decide (startedAt row < before) &&
    decide (row.status ≠ statusText .Running)

/-- The purge deletes the finished runs of the task that started before the cutoff, with their
    outputs and nothing else, and returns their number. For a cutoff from the year 10000 on
    it deletes nothing. -/
theorem purge_exact (texts : Texts) (htexts : ∀ t, texts.dateTime.encode t = toRfc3339 t)
    (db : Database) (startedAt : TaskRunRow → DateTime) (hdb : WrittenStarts texts db startedAt)
    (taskId : TaskId) (before : DateTime) :
    (year before ≤ 9999 →
      Deleted (startedBefore startedAt taskId before) db
        (purgeExpiredRuns texts taskId before db) ∧
      purgedRuns texts taskId before db =
        db.taskRuns.rows.countP (startedBefore startedAt taskId before)) ∧
    (9999 < year before →
      Deleted (fun _ => false) db (purgeExpiredRuns texts taskId before db) ∧
      purgedRuns texts taskId before db = 0) := by
  have hdeleted := deleteRuns_deleted db (isExpired texts taskId before)
  constructor
  · intro hbefore
    have hsame : ∀ row ∈ db.taskRuns.rows,
        isExpired texts taskId before row = startedBefore startedAt taskId before row := by
      intro row hrow
      have hlt := toRfc3339_lt_iff (hdb.year row hrow) hbefore
      rw [← htexts, ← htexts, ← hdb.text row hrow] at hlt
      rw [isExpired, startedBefore, decide_eq_decide.mpr hlt, statusText_running]
    exact ⟨hdeleted.congr hsame, List.countP_congr fun row hrow => by rw [hsame row hrow]⟩
  · intro hbefore
    have hnone : ∀ row ∈ db.taskRuns.rows, isExpired texts taskId before row = false := by
      intro row hrow
      have hlt := not_toRfc3339_lt (hdb.year row hrow) hbefore
      rw [← htexts, ← htexts, ← hdb.text row hrow] at hlt
      rw [isExpired, decide_eq_false hlt, Bool.and_false, Bool.false_and]
    refine ⟨hdeleted.congr hnone, ?_⟩
    show db.taskRuns.rows.countP _ = 0
    rw [List.countP_eq_zero]
    intro row hrow
    rw [hnone row hrow]
    exact Bool.false_ne_true

/-! ## Stored runs -/

section Stores

variable {texts : Texts} {db : Database} {runs : List Execution}

/-- On the list of runs the purge is a filter. -/
theorem Stores.purge (h : Stores texts db runs)
    (htexts : ∀ t, texts.dateTime.encode t = toRfc3339 t)
    (hyear : ∀ run ∈ runs, 0 ≤ year run.startedAt ∧ year run.startedAt ≤ 9999) {taskId : TaskId}
    (hid : taskId.uuid.InRange) {before : DateTime} (hbefore : year before ≤ 9999) :
    Stores texts (purgeExpiredRuns texts taskId before db)
      (runs.filter fun run => !(decide (run.taskId = taskId) && decide (run.startedAt < before) &&
        decide (run.status ≠ .Running))) := by
  refine ⟨?_, fun run hrun => h.inRange run (List.mem_of_mem_filter hrun)⟩
  show db.taskRuns.rows.filter (fun row => !isExpired texts taskId before row) = _
  rw [h.rows, List.filter_map]
  refine congrArg (List.map _) (List.filter_congr fun run hrun => ?_)
  have hstarted : (TaskRunRow.ofExecution texts run).startedAt < texts.dateTime.encode before ↔
      run.startedAt < before := by
    have hlt := toRfc3339_lt_iff (hyear run hrun) hbefore
    rwa [← htexts, ← htexts] at hlt
  have hstatus : (TaskRunRow.ofExecution texts run).status ≠ "\"Running\"" ↔
      run.status ≠ .Running := by
    rw [← statusText_running]
    exact not_congr ⟨statusText_injective, congrArg statusText⟩
  rw [Function.comp_apply, isExpired, decide_eq_decide.mpr (h.taskId_iff hrun hid),
    decide_eq_decide.mpr hstarted, decide_eq_decide.mpr hstatus]

end Stores

/-! ## Two fractions of a second -/

/-- 2025-09-11, midnight. -/
def midnight : DateTime := 1757548800 * nanosPerSec

/-- A run of `twoActions` that succeeded. -/
def succeededRun (id : Uuid) (startedAt : DateTime) : Execution :=
  { Execution.new ⟨id⟩ twoActions.id none none startedAt with status := .Succeeded }

def purgeTexts : Texts := { twoActionsTexts with dateTime := .among toRfc3339 [midnight] }

/-- Runs of midnight and a little more than a quarter of a second later, with an output each, and
    a third one that is `Running`. -/
def purgeDatabase : Database :=
  (executeAll [upsertStatement purgeTexts twoActions,
    createRun purgeTexts (succeededRun 1 midnight),
    createRun purgeTexts (succeededRun 2 (midnight + 250000001)),
    createRun purgeTexts { succeededRun 3 midnight with status := .Running },
    appendOutput purgeTexts ⟨1⟩ "stdout" "a" midnight,
    appendOutput purgeTexts ⟨2⟩ "stdout" "b" midnight] .empty).getD .empty

def purgeStarts (row : TaskRunRow) : DateTime :=
  if row.id = ExecutionId.text ⟨2⟩ then midnight + 250000001 else midnight

theorem purgeStarts_written : WrittenStarts purgeTexts purgeDatabase purgeStarts := by
  constructor <;> decide +kernel

/-- A quarter of a second after midnight the first run is purged, but not the second. -/
theorem purge_exact_fractions :
    Deleted (startedBefore purgeStarts twoActions.id (midnight + 250000000)) purgeDatabase
      (purgeExpiredRuns purgeTexts twoActions.id (midnight + 250000000) purgeDatabase) ∧
    purgedRuns purgeTexts twoActions.id (midnight + 250000000) purgeDatabase = 1 := by
  obtain ⟨hdeleted, hcount⟩ := (purge_exact purgeTexts (fun _ => rfl) purgeDatabase purgeStarts
    purgeStarts_written twoActions.id (midnight + 250000000)).1 (by decide +kernel)
  exact ⟨hdeleted, hcount.trans (by decide +kernel)⟩

/-- 10000-01-01, midnight. -/
def year10000 : DateTime := 2932897 * nanosPerDay

/-- A cutoff in the year 10000 is a text before all others. -/
theorem purge_misses_year10000 : WrittenStarts purgeTexts purgeDatabase purgeStarts ∧
    ¬Deleted (startedBefore purgeStarts twoActions.id year10000) purgeDatabase
      (purgeExpiredRuns purgeTexts twoActions.id year10000 purgeDatabase) := by
  refine ⟨purgeStarts_written, fun h => ?_⟩
  have hrows := h.taskRuns
  revert hrows
  decide +kernel

end EasyJob.Persistence.Sqlite
