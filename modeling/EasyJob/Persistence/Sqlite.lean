import EasyJob.Domain.Task
import EasyJob.Lib.Table

/-!
# The database

The five tables of `migrations/20260911000000_init_schema.sql` that hold tasks
and runs, with the texts and numbers that their columns hold. Rows are in the
order of their insertion, which is the order of `rowid`. The primary keys are
part of the tables and the foreign keys of the database, so every value of
`Database` satisfies the schema.

Statements are functions on databases. `transaction` runs a list of them, each of
which may fail for a reason of its own, and rolls back.

* `transaction_error`, `transaction_ok`: a transaction that fails changes
  nothing, and one that succeeds has executed all its statements.
-/

namespace EasyJob.Persistence.Sqlite

/-! ## Rows -/

/-- A value of an `INTEGER` column. Arithmetic that overflows gives a `REAL`. -/
inductive Number
  | integer (n : ℤ)
  | real
  deriving DecidableEq, Repr

def i64Max : ℤ := 9223372036854775807

/-- `n + 1`. -/
def Number.succ : Number → Number
  | .integer n => if n < i64Max then .integer (n + 1) else .real
  | .real => .real

structure TaskRow where
  id : String
  name : String
  description : Option String
  enabled : ℤ
  executionPolicyJson : String
  workingDirectory : Option String
  environmentJson : String
  version : Number
  createdAt : String
  updatedAt : String
  deriving DecidableEq, Repr

structure TriggerRow where
  id : String
  taskId : String
  kind : String
  configJson : String
  enabled : ℤ
  createdAt : String
  updatedAt : String
  deriving DecidableEq, Repr

structure ActionRow where
  id : String
  taskId : String
  sequence : ℤ
  kind : String
  configJson : String
  enabled : ℤ
  deriving DecidableEq, Repr

structure TaskRunRow where
  id : String
  taskId : String
  triggerId : Option String
  status : String
  scheduledAt : Option String
  startedAt : String
  finishedAt : Option String
  durationMs : Option ℤ
  exitCode : Option ℤ
  errorMessage : Option String
  deriving DecidableEq, Repr

structure RunOutputRow where
  id : ℕ
  runId : String
  stream : String
  content : String
  createdAt : String
  deriving DecidableEq, Repr

/-! ## The schema -/

structure Database where
  tasks : Table TaskRow.id
  triggers : Table TriggerRow.id
  actions : Table ActionRow.id
  taskRuns : Table TaskRunRow.id
  runOutputs : Table RunOutputRow.id
  /-- The last id of `run_outputs` (`AUTOINCREMENT`). -/
  outputSeq : ℕ
  triggers_task : triggers.References TriggerRow.taskId tasks
  actions_task : actions.References ActionRow.taskId tasks
  taskRuns_task : taskRuns.References TaskRunRow.taskId tasks
  runOutputs_run : runOutputs.References RunOutputRow.runId taskRuns
  outputs_le : ∀ row ∈ runOutputs.rows, row.id ≤ outputSeq

namespace Database

def empty : Database where
  tasks := .empty
  triggers := .empty
  actions := .empty
  taskRuns := .empty
  runOutputs := .empty
  outputSeq := 0
  triggers_task := fun _ h => absurd h List.not_mem_nil
  actions_task := fun _ h => absurd h List.not_mem_nil
  taskRuns_task := fun _ h => absurd h List.not_mem_nil
  runOutputs_run := fun _ h => absurd h List.not_mem_nil
  outputs_le := fun _ h => absurd h List.not_mem_nil

/-! ## Statements on tasks -/

/-- `INSERT INTO tasks .. ON CONFLICT(id) DO UPDATE`. -/
def upsertTask (db : Database) (row : TaskRow) (update : TaskRow → TaskRow)
    (hid : ∀ r, (update r).id = r.id) : Database :=
  { db with
    tasks := db.tasks.upsert row update hid
    triggers_task := db.triggers_task.upsert row update hid
    actions_task := db.actions_task.upsert row update hid
    taskRuns_task := db.taskRuns_task.upsert row update hid }

/-- `DELETE FROM triggers WHERE task_id = ?`. -/
def deleteTriggers (db : Database) (taskId : String) : Database :=
  { db with
    triggers := db.triggers.deleteWhere fun row => decide (row.taskId = taskId)
    triggers_task := db.triggers_task.deleteWhere _ }

def insertTrigger (db : Database) (row : TriggerRow) : Option Database :=
  match h : db.triggers.insertChild TriggerRow.taskId db.tasks row with
  | some triggers => some { db with
      triggers := triggers
      triggers_task := db.triggers_task.insertChild h }
  | none => none

/-- `DELETE FROM actions WHERE task_id = ?`. -/
def deleteActions (db : Database) (taskId : String) : Database :=
  { db with
    actions := db.actions.deleteWhere fun row => decide (row.taskId = taskId)
    actions_task := db.actions_task.deleteWhere _ }

def insertAction (db : Database) (row : ActionRow) : Option Database :=
  match h : db.actions.insertChild ActionRow.taskId db.tasks row with
  | some actions => some { db with
      actions := actions
      actions_task := db.actions_task.insertChild h }
  | none => none

/-- `DELETE FROM tasks WHERE id = ?`, with the cascades. -/
def deleteTask (db : Database) (id : String) : Database :=
  let tasks := db.tasks.deleteKey id
  let taskRuns := db.taskRuns.cascade TaskRunRow.taskId tasks
  { tasks := tasks
    triggers := db.triggers.cascade TriggerRow.taskId tasks
    actions := db.actions.cascade ActionRow.taskId tasks
    taskRuns := taskRuns
    runOutputs := db.runOutputs.cascade RunOutputRow.runId taskRuns
    outputSeq := db.outputSeq
    triggers_task := .cascade _ _ _
    actions_task := .cascade _ _ _
    taskRuns_task := .cascade _ _ _
    runOutputs_run := .cascade _ _ _
    outputs_le := fun row hrow => db.outputs_le row (List.mem_of_mem_filter hrow) }

theorem insertTrigger_eq_some {db db' : Database} {row : TriggerRow}
    (h : db.insertTrigger row = some db') :
    db'.tasks = db.tasks ∧ db'.triggers.rows = db.triggers.rows ++ [row] ∧
      db'.actions = db.actions ∧ db'.taskRuns = db.taskRuns ∧ db'.runOutputs = db.runOutputs := by
  unfold insertTrigger at h
  split at h
  · rename_i triggers hinsert
    cases h
    exact ⟨rfl, Table.rows_insert (Table.insertChild_eq_some hinsert).2, rfl, rfl, rfl⟩
  · cases h

theorem insertAction_eq_some {db db' : Database} {row : ActionRow}
    (h : db.insertAction row = some db') :
    db'.tasks = db.tasks ∧ db'.triggers = db.triggers ∧
      db'.actions.rows = db.actions.rows ++ [row] ∧ db'.taskRuns = db.taskRuns ∧
      db'.runOutputs = db.runOutputs := by
  unfold insertAction at h
  split at h
  · rename_i actions hinsert
    cases h
    exact ⟨rfl, rfl, Table.rows_insert (Table.insertChild_eq_some hinsert).2, rfl, rfl⟩
  · cases h

end Database

/-! ## Transactions -/

/-- A statement; `none` when it violates a constraint. -/
abbrev Statement := Database → Option Database

def executeAll : List Statement → Statement
  | [], db => some db
  | statement :: statements, db => do
    let db ← statement db
    executeAll statements db

/-- The statements from number `n` on, and `COMMIT` after them. Statement `n` fails
    if `fails n`. -/
def runStatements (fails : ℕ → Bool) : ℕ → List Statement → Statement
  | n, [], db => if fails n then none else some db
  | n, statement :: statements, db =>
    if fails n then none
    else do
      let db ← statement db
      runStatements fails (n + 1) statements db

/-- The statements between `BEGIN`, which is number 0, and `COMMIT`. A transaction that is
    dropped is rolled back. -/
def transaction (fails : ℕ → Bool) (statements : List Statement) (db : Database) :
    Except Unit Unit × Database :=
  if fails 0 then (.error (), db)
  else
    match runStatements fails 1 statements db with
    | some db' => (.ok (), db')
    | none => (.error (), db)

theorem executeAll_append (first second : List Statement) (db : Database) :
    executeAll (first ++ second) db = (executeAll first db).bind (executeAll second) := by
  induction first generalizing db with
  | nil => rfl
  | cons statement first ih =>
    show (statement db).bind _ = ((statement db).bind _).bind _
    rw [Option.bind_assoc]
    exact congrArg _ (funext ih)

variable {fails : ℕ → Bool} {statements : List Statement} {db db' : Database}

theorem executeAll_of_runStatements {n : ℕ}
    (h : runStatements fails n statements db = some db') : executeAll statements db = some db' := by
  induction statements generalizing n db with
  | nil =>
    rw [runStatements] at h
    split_ifs at h
    exact h
  | cons statement statements ih =>
    rw [runStatements] at h
    split_ifs at h
    obtain ⟨db₁, hstatement, hrest⟩ := Option.bind_eq_some_iff.mp h
    exact Option.bind_eq_some_iff.mpr ⟨db₁, hstatement, ih hrest⟩

/-- A transaction that fails changes nothing. -/
theorem transaction_error (h : transaction fails statements db = (.error (), db')) : db' = db := by
  unfold transaction at h
  split_ifs at h
  · cases h
    rfl
  · split at h
    · cases h
    · cases h
      rfl

/-- A transaction that succeeds has executed its statements. -/
theorem transaction_ok (h : transaction fails statements db = (.ok (), db')) :
    executeAll statements db = some db' := by
  unfold transaction at h
  split_ifs at h
  · cases h
  · split at h
    · rename_i hsome
      cases h
      exact executeAll_of_runStatements hsome
    · cases h

end EasyJob.Persistence.Sqlite
