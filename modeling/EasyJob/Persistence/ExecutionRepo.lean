import EasyJob.Persistence.SaveLoad

/-!
# The table of runs

Model of the statements on `task_runs` and `run_outputs`: `create_run`,
`update_run`, `append_output` and `purge_expired_runs`
(`crates/persistence/src/execution_repo.rs` lines 46–169), and
`recover_dangling_executions` (`recovery.rs`).

`Database.runStatus` is the column `status` by id. For each statement there is a
lemma that says what it makes of that column.

* `find_purge`: a purge deletes no row with the status `Running`.
* `runStatus_recover`: a recovery leaves no row with the status `Running`.
-/

namespace EasyJob.Persistence.Sqlite

open EasyJob.Chrono EasyJob.Domain

/-! ## Texts -/

def ExecutionId.text (id : ExecutionId) : String := displayUuid id.uuid

/-- `serde_json::to_string(&status)`. -/
def statusText (status : ExecutionStatus) : String := String.ofList status.toJson.render

theorem statusText_running : statusText .Running = "\"Running\"" := by decide

theorem statusText_injective {a b : ExecutionStatus} (h : statusText a = statusText b) : a = b := by
  revert h
  cases a <;> cases b <;> decide

variable (texts : Texts)

def TaskRunRow.ofExecution (run : Execution) : TaskRunRow where
  id := ExecutionId.text run.id
  taskId := TaskId.text run.taskId
  triggerId := run.triggerId.map fun id => displayUuid id.uuid
  status := statusText run.status
  scheduledAt := run.scheduledAt.map texts.dateTime.encode
  startedAt := texts.dateTime.encode run.startedAt
  finishedAt := run.finishedAt.map texts.dateTime.encode
  durationMs := run.durationMs.map asI64
  exitCode := run.exitCode
  errorMessage := run.errorMessage

/-- `UPDATE task_runs SET ..` of `update_run`. -/
def TaskRunRow.update (run : Execution) (row : TaskRunRow) : TaskRunRow :=
  { row with
    status := statusText run.status
    finishedAt := run.finishedAt.map texts.dateTime.encode
    durationMs := run.durationMs.map asI64
    exitCode := run.exitCode
    errorMessage := run.errorMessage }

theorem TaskRunRow.update_id (run : Execution) (row : TaskRunRow) :
    (TaskRunRow.update texts run row).id = row.id := rfl

theorem TaskRunRow.update_taskId (run : Execution) (row : TaskRunRow) :
    (TaskRunRow.update texts run row).taskId = row.taskId := rfl

/-- `UPDATE task_runs SET ..` of `recover_dangling_executions`. -/
def TaskRunRow.interrupt (row : TaskRunRow) : TaskRunRow :=
  { row with
    status := statusText .Interrupted
    errorMessage := some "Agent restarted unexpectedly" }

theorem TaskRunRow.interrupt_id (row : TaskRunRow) : row.interrupt.id = row.id := rfl

theorem TaskRunRow.interrupt_taskId (row : TaskRunRow) : row.interrupt.taskId = row.taskId := rfl

/-! ## Statements -/

namespace Database

def insertRun (db : Database) (row : TaskRunRow) : Option Database :=
  match h : db.taskRuns.insertChild TaskRunRow.taskId db.tasks row with
  | some taskRuns => some { db with
      taskRuns := taskRuns
      taskRuns_task := db.taskRuns_task.insertChild h
      runOutputs_run := db.runOutputs_run.insertParent (Table.insertChild_eq_some h).2 }
  | none => none

/-- `UPDATE task_runs SET .. WHERE p`. -/
def updateRuns (db : Database) (p : TaskRunRow → Bool) (update : TaskRunRow → TaskRunRow)
    (hid : ∀ row, (update row).id = row.id) (htask : ∀ row, (update row).taskId = row.taskId) :
    Database :=
  { db with
    taskRuns := db.taskRuns.updateWhere p update hid
    taskRuns_task := db.taskRuns_task.updateWhere p hid htask
    runOutputs_run := db.runOutputs_run.updateParent p update hid }

/-- `DELETE FROM task_runs WHERE p`, with the cascade. -/
def deleteRuns (db : Database) (p : TaskRunRow → Bool) : Database :=
  let taskRuns := db.taskRuns.deleteWhere p
  { db with
    taskRuns := taskRuns
    runOutputs := db.runOutputs.cascade RunOutputRow.runId taskRuns
    taskRuns_task := db.taskRuns_task.deleteWhere p
    runOutputs_run := .cascade _ _ _
    outputs_le := fun row hrow => db.outputs_le row (List.mem_of_mem_filter hrow) }

/-- `INSERT INTO run_outputs`. -/
def insertOutput (db : Database) (runId stream content createdAt : String) : Option Database :=
  match h : db.runOutputs.insertChild RunOutputRow.runId db.taskRuns
      ⟨db.outputSeq + 1, runId, stream, content, createdAt⟩ with
  | some runOutputs => some { db with
      runOutputs := runOutputs
      outputSeq := db.outputSeq + 1
      runOutputs_run := db.runOutputs_run.insertChild h
      outputs_le := by
        intro row hrow
        rw [Table.rows_insert (Table.insertChild_eq_some h).2, List.mem_append,
          List.mem_singleton] at hrow
        rcases hrow with hrow | rfl
        · exact Nat.le_succ_of_le (db.outputs_le row hrow)
        · exact Nat.le_refl _ }
  | none => none

end Database

/-- Model of `create_run` (lines 47–68). -/
def createRun (run : Execution) : Statement := fun db =>
  db.insertRun (TaskRunRow.ofExecution texts run)

/-- Model of `update_run` (lines 70–91). -/
def updateRun (run : Execution) (db : Database) : Database :=
  db.updateRuns (fun row => decide (row.id = ExecutionId.text run.id)) (TaskRunRow.update texts run)
    (TaskRunRow.update_id texts run) (TaskRunRow.update_taskId texts run)

/-- Model of `append_output` (lines 119–131). -/
def appendOutput (runId : ExecutionId) (stream content : String) (now : DateTime) : Statement :=
  fun db => db.insertOutput (ExecutionId.text runId) stream content (texts.dateTime.encode now)

/-- Model of `purge_expired_runs` (lines 154–175). -/
def purgeExpiredRuns (taskId : TaskId) (before : DateTime) (db : Database) : Database :=
  db.deleteRuns fun row => decide (row.taskId = TaskId.text taskId) &&
    decide (row.startedAt < texts.dateTime.encode before) && decide (row.status ≠ "\"Running\"")

/-- Model of `recover_dangling_executions`. -/
def recoverDanglingExecutions (db : Database) : Database :=
  db.updateRuns (fun row => decide (row.status = statusText .Running)) TaskRunRow.interrupt
    TaskRunRow.interrupt_id TaskRunRow.interrupt_taskId

/-! ## The status of a run -/

/-- `SELECT status FROM task_runs WHERE id = ?`. -/
def Database.runStatus (db : Database) (id : String) : Option String :=
  (db.taskRuns.find id).map TaskRunRow.status

variable {texts} {db db' : Database}

theorem runStatus_congr (h : db'.taskRuns = db.taskRuns) : db'.runStatus = db.runStatus := by
  funext id
  rw [Database.runStatus, h]
  rfl

theorem runStatus_create {run : Execution} (h : createRun texts run db = some db') (id : String) :
    db.runStatus (ExecutionId.text run.id) = none ∧
      db'.runStatus id =
        if id = ExecutionId.text run.id then some (statusText run.status) else db.runStatus id := by
  unfold createRun Database.insertRun at h
  split at h
  · rename_i taskRuns hinsert
    cases h
    obtain ⟨hnone, hfind⟩ := Table.find_insert (Table.insertChild_eq_some hinsert).2 id
    constructor
    · exact congrArg (Option.map TaskRunRow.status) hnone
    · show Option.map _ (taskRuns.find id) = _
      rw [hfind]
      show Option.map _ (if id = ExecutionId.text run.id then _ else _) = _
      split_ifs <;> rfl
  · cases h

theorem runStatus_updateRuns (p : TaskRunRow → Bool) (update : TaskRunRow → TaskRunRow)
    (hid : ∀ row, (update row).id = row.id) (htask : ∀ row, (update row).taskId = row.taskId)
    (id : String) :
    (db.updateRuns p update hid htask).runStatus id =
      (db.taskRuns.find id).map fun row => if p row then (update row).status else row.status := by
  show ((db.taskRuns.updateWhere p update hid).find id).map TaskRunRow.status = _
  rw [Table.find_updateWhere, Option.map_map]
  refine congrArg (fun f => Option.map f _) (funext fun row => ?_)
  show TaskRunRow.status (if p row then update row else row) = _
  split_ifs <;> rfl

theorem runStatus_update (run : Execution) (id : String) :
    (updateRun texts run db).runStatus id =
      if id = ExecutionId.text run.id then (db.runStatus id).map fun _ => statusText run.status
      else db.runStatus id := by
  rw [updateRun, runStatus_updateRuns, Database.runStatus]
  cases hfind : db.taskRuns.find id with
  | none =>
    rw [Option.map_none, Option.map_none, Option.map_none, ite_self]
  | some row =>
    have hid : row.id = id := Table.find_key hfind
    rw [← hid, Option.map_some, Option.map_some, Option.map_some]
    by_cases hrun : row.id = ExecutionId.text run.id
    · rw [if_pos (decide_eq_true hrun), if_pos hrun]
      rfl
    · rw [if_neg (mt of_decide_eq_true hrun), if_neg hrun]

theorem runStatus_append {runId : ExecutionId} {stream content : String} {now : DateTime}
    (h : appendOutput texts runId stream content now db = some db') :
    db'.runStatus = db.runStatus := by
  unfold appendOutput Database.insertOutput at h
  split at h
  · cases h
    rfl
  · cases h

theorem find_deleteRuns (p : TaskRunRow → Bool) (id : String) :
    (db.deleteRuns p).taskRuns.find id = (db.taskRuns.find id).filter fun row => !p row :=
  Table.find_deleteWhere _ _ _

/-- A row is deleted or kept by a purge, and kept if its status is `Running`. -/
theorem find_purge (taskId : TaskId) (before : DateTime) (id : String) :
    ((purgeExpiredRuns texts taskId before db).taskRuns.find id = db.taskRuns.find id ∨
      (purgeExpiredRuns texts taskId before db).taskRuns.find id = none) ∧
    (db.runStatus id = some (statusText .Running) →
      (purgeExpiredRuns texts taskId before db).taskRuns.find id = db.taskRuns.find id) := by
  rw [purgeExpiredRuns, find_deleteRuns, Database.runStatus]
  cases hfind : db.taskRuns.find id with
  | none => simp
  | some row =>
    rw [Option.filter_some]
    constructor
    · split_ifs
      · exact .inl rfl
      · exact .inr rfl
    · intro hrunning
      have hstatus : row.status = "\"Running\"" := by
        rw [← statusText_running]
        exact Option.some.inj hrunning
      rw [if_pos]
      rw [hstatus, decide_eq_false (not_not_intro rfl), Bool.and_false, Bool.not_false]

theorem runStatus_recover (id : String) :
    (recoverDanglingExecutions db).runStatus id =
      (db.runStatus id).map fun status =>
        if status = statusText .Running then statusText .Interrupted else status := by
  rw [recoverDanglingExecutions, runStatus_updateRuns, Database.runStatus, Option.map_map]
  refine congrArg (fun f => Option.map f _) (funext fun row => ?_)
  rw [Function.comp_apply]
  by_cases hrunning : row.status = statusText .Running
  · rw [if_pos (decide_eq_true hrunning), if_pos hrunning]
    rfl
  · rw [if_neg (mt of_decide_eq_true hrunning), if_neg hrunning]

theorem runStatus_recover_ne (id : String) :
    (recoverDanglingExecutions db).runStatus id ≠ some (statusText .Running) := by
  rw [runStatus_recover]
  cases db.runStatus id with
  | none => simp
  | some status =>
    rw [Option.map_some, ne_eq, Option.some.injEq]
    split_ifs with hrunning
    · exact fun h => absurd (statusText_injective h) (by decide)
    · exact hrunning

theorem runStatus_deleteTask (taskId : String) (id : String) :
    (db.deleteTask taskId).runStatus id = db.runStatus id ∨
      (db.deleteTask taskId).runStatus id = none := by
  show (((db.taskRuns.cascade TaskRunRow.taskId (db.tasks.deleteKey taskId)).find id).map _ = _) ∨
    (((db.taskRuns.cascade TaskRunRow.taskId (db.tasks.deleteKey taskId)).find id).map _ = _)
  rw [Table.cascade, Table.find_deleteWhere, Database.runStatus]
  cases db.taskRuns.find id with
  | none => exact .inr rfl
  | some row =>
    rw [Option.filter_some]
    split_ifs
    · exact .inl rfl
    · exact .inr rfl

theorem runStatus_save (fails : ℕ → Bool) (task : Task) :
    (save texts fails db task).2.runStatus = db.runStatus := by
  cases hsave : save texts fails db task with
  | mk result db' =>
    cases result with
    | error => rw [transaction_error hsave]
    | ok => exact runStatus_congr (saved_of_executeAll (transaction_ok hsave)).taskRuns

end EasyJob.Persistence.Sqlite
