import EasyJob.Persistence.ExecutionRepo
import EasyJob.Persistence.Represents

/-!
# The runs in the table

The rows that `create_run` and `update_run` write are those of a list of executions,
with the instants as texts. The statements on `task_runs` are the operations that
one expects on that list.

* `Stores.create`, `Stores.update`, `Stores.recover`
* `Stores.executeAll`: after any number of these statements the rows are such a list.
-/

namespace EasyJob.Persistence.Sqlite

open EasyJob.Chrono EasyJob.Domain

/-- The ids and the duration of an execution as the source has them, with 128 and 64 bits. -/
structure InRange (run : Execution) : Prop where
  id : run.id.uuid.InRange
  taskId : run.taskId.uuid.InRange
  triggerId : ∀ id ∈ run.triggerId, id.uuid.InRange
  durationMs : ∀ d ∈ run.durationMs, d < 2 ^ 64

/-- The rows of `task_runs` are those of `runs`. -/
structure Stores (texts : Texts) (db : Database) (runs : List Execution) : Prop where
  rows : db.taskRuns.rows = runs.map (TaskRunRow.ofExecution texts)
  inRange : ∀ run ∈ runs, InRange run

/-- What `update_run` makes of a run. -/
def updatedRun (run old : Execution) : Execution :=
  { old with
    status := run.status
    finishedAt := run.finishedAt
    durationMs := run.durationMs
    exitCode := run.exitCode
    errorMessage := run.errorMessage }

/-- What `recover_dangling_executions` makes of a run. -/
def interruptedRun (run : Execution) : Execution :=
  if run.status = .Running then
    { run with status := .Interrupted, errorMessage := some "Agent restarted unexpectedly" }
  else run

variable {texts : Texts} {db db' : Database} {runs : List Execution} {run : Execution}

theorem ExecutionId.text_injective {a b : ExecutionId} (ha : a.uuid.InRange) (hb : b.uuid.InRange)
    (h : ExecutionId.text a = ExecutionId.text b) : a = b := by
  have huuid := displayUuid_injective ha hb h
  cases a
  cases b
  exact congrArg ExecutionId.mk huuid

theorem TaskRunRow.ofExecution_id (texts : Texts) (run : Execution) :
    (TaskRunRow.ofExecution texts run).id = ExecutionId.text run.id := rfl

theorem TaskRunRow.ofExecution_taskId (texts : Texts) (run : Execution) :
    (TaskRunRow.ofExecution texts run).taskId = TaskId.text run.taskId := rfl

/-- Ids of stored runs are distinct. -/
theorem Stores.nodup (h : Stores texts db runs) : (runs.map Execution.id).Nodup := by
  have hids := db.taskRuns.nodup
  rw [h.rows, List.map_map] at hids
  apply List.Nodup.of_map ExecutionId.text
  rwa [List.map_map]

theorem Stores.id_iff (h : Stores texts db runs) (hrun : run ∈ runs) {id : ExecutionId}
    (hid : id.uuid.InRange) :
    (TaskRunRow.ofExecution texts run).id = ExecutionId.text id ↔ run.id = id :=
  ⟨ExecutionId.text_injective (h.inRange run hrun).id hid, congrArg ExecutionId.text⟩

theorem Stores.taskId_iff (h : Stores texts db runs) (hrun : run ∈ runs) {id : TaskId}
    (hid : id.uuid.InRange) :
    (TaskRunRow.ofExecution texts run).taskId = TaskId.text id ↔ run.taskId = id :=
  ⟨TaskId.text_injective (h.inRange run hrun).taskId hid, congrArg TaskId.text⟩

theorem Stores.create (h : Stores texts db runs) (hrun : InRange run)
    (hcreate : createRun texts run db = some db') : Stores texts db' (runs ++ [run]) := by
  unfold createRun Database.insertRun at hcreate
  split at hcreate
  · rename_i taskRuns hinsert
    cases hcreate
    refine ⟨?_, ?_⟩
    · show taskRuns.rows = _
      rw [Table.rows_insert (Table.insertChild_eq_some hinsert).2, h.rows, List.map_append]
      rfl
    · intro run' hrun'
      rcases List.mem_append.mp hrun' with hrun' | hrun'
      · exact h.inRange run' hrun'
      · rw [List.mem_singleton.mp hrun']
        exact hrun
  · cases hcreate

theorem Stores.updateRuns (h : Stores texts db runs) {p : TaskRunRow → Bool}
    {update : TaskRunRow → TaskRunRow} {hid : ∀ row, (update row).id = row.id}
    {htask : ∀ row, (update row).taskId = row.taskId} {f : Execution → Execution}
    (hf : ∀ run ∈ runs, TaskRunRow.ofExecution texts (f run) =
      if p (TaskRunRow.ofExecution texts run) then update (TaskRunRow.ofExecution texts run)
      else TaskRunRow.ofExecution texts run)
    (hrange : ∀ run ∈ runs, InRange (f run)) :
    Stores texts (db.updateRuns p update hid htask) (runs.map f) := by
  refine ⟨?_, ?_⟩
  · show db.taskRuns.rows.map (fun row => if p row then update row else row) = _
    rw [h.rows, List.map_map, List.map_map]
    exact List.map_congr_left fun run hrun => (hf run hrun).symm
  · intro run' hrun'
    obtain ⟨run, hrun, rfl⟩ := List.mem_map.mp hrun'
    exact hrange run hrun

theorem Stores.update (h : Stores texts db runs) (hrun : InRange run) :
    Stores texts (updateRun texts run db)
      (runs.map fun old => if old.id = run.id then updatedRun run old else old) := by
  refine h.updateRuns ?_ ?_
  · intro old hold
    have hid := h.id_iff hold hrun.id
    by_cases heq : old.id = run.id
    · rw [if_pos heq, if_pos (decide_eq_true (hid.mpr heq))]
      rfl
    · rw [if_neg heq, if_neg fun htext => heq (hid.mp (of_decide_eq_true htext))]
  · intro old hold
    have hrange := h.inRange old hold
    split_ifs
    · exact ⟨hrange.id, hrange.taskId, hrange.triggerId, hrun.durationMs⟩
    · exact hrange

theorem Stores.recover (h : Stores texts db runs) :
    Stores texts (recoverDanglingExecutions db) (runs.map interruptedRun) := by
  refine h.updateRuns ?_ ?_
  · intro run _
    have hstatus : (TaskRunRow.ofExecution texts run).status = statusText .Running ↔
        run.status = .Running :=
      ⟨statusText_injective, congrArg statusText⟩
    unfold interruptedRun
    by_cases heq : run.status = .Running
    · rw [if_pos heq, if_pos (decide_eq_true (hstatus.mpr heq))]
      rfl
    · rw [if_neg heq, if_neg fun htext => heq (hstatus.mp (of_decide_eq_true htext))]
  · intro run hrun
    have hrange := h.inRange run hrun
    unfold interruptedRun
    split_ifs
    · exact ⟨hrange.id, hrange.taskId, hrange.triggerId, hrange.durationMs⟩
    · exact hrange

theorem Stores.deleteTask (h : Stores texts db runs) {id : TaskId}
    (hid : id.uuid.InRange) :
    Stores texts (db.deleteTask (TaskId.text id))
      (runs.filter fun run => !decide (run.taskId = id)) := by
  refine ⟨?_, fun run hrun => h.inRange run (List.mem_of_mem_filter hrun)⟩
  show (db.taskRuns.cascade TaskRunRow.taskId (db.tasks.deleteKey (TaskId.text id))).rows = _
  rw [db.taskRuns_task.rows_cascade, h.rows, List.filter_map]
  refine congrArg (List.map _) (List.filter_congr fun run hrun => ?_)
  rw [Function.comp_apply, decide_eq_decide.mpr (h.taskId_iff hrun hid)]

/-! ## Any number of statements -/

/-- A statement that writes `task_runs`. -/
inductive RunStatement
  | create (run : Execution)
  | update (run : Execution)
  | recover

def RunStatement.execute (texts : Texts) : RunStatement → Statement
  | .create run => createRun texts run
  | .update run => fun db => some (updateRun texts run db)
  | .recover => fun db => some (recoverDanglingExecutions db)

/-- The run that is written is one of the source. -/
def RunStatement.Writes : RunStatement → Prop
  | .create run | .update run => InRange run
  | .recover => True

theorem Stores.execute (h : Stores texts db runs) {statement : RunStatement}
    (hwrites : statement.Writes) (hok : statement.execute texts db = some db') :
    ∃ runs', Stores texts db' runs' := by
  cases statement with
  | create run => exact ⟨_, h.create hwrites hok⟩
  | update run =>
    cases hok
    exact ⟨_, h.update hwrites⟩
  | recover =>
    cases hok
    exact ⟨_, h.recover⟩

/-- Whatever these statements wrote are the rows of a list of executions. -/
theorem Stores.executeAll (h : Stores texts db runs) {statements : List RunStatement}
    (hwrites : ∀ statement ∈ statements, statement.Writes)
    (hok : Sqlite.executeAll (statements.map (RunStatement.execute texts)) db = some db') :
    ∃ runs', Stores texts db' runs' := by
  induction statements generalizing db runs with
  | nil =>
    cases hok
    exact ⟨runs, h⟩
  | cons statement statements ih =>
    obtain ⟨db₁, hfirst, hrest⟩ := Option.bind_eq_some_iff.mp hok
    obtain ⟨runs₁, h₁⟩ := h.execute (hwrites statement List.mem_cons_self) hfirst
    exact ih h₁ (fun s hs => hwrites s (List.mem_cons_of_mem statement hs)) hrest

theorem stores_empty (texts : Texts) : Stores texts .empty [] :=
  ⟨rfl, fun _ h => absurd h List.not_mem_nil⟩

end EasyJob.Persistence.Sqlite
