import EasyJob.Domain.Task
import EasyJob.Lib.Table
import Mathlib.Data.List.Sort

/-!
# The task repository

Model of `crates/persistence/src/task_repo.rs` on the tables of
`migrations/20260911000000_init_schema.sql`. A JSON column is the value it
decodes to, and columns that nothing reads back (the kinds and flags copied out
of the JSON) are left out. Every call is one step: `save` is a transaction, and
`delete` one statement with its cascades.

* `findById_save`, `findById_delete`: what a read sees after a committed write.
* `mem_findAllEnabled`: the tasks that are loaded at start-up.
-/

namespace EasyJob.Persistence

open EasyJob.Chrono EasyJob.Domain

/-! ## Tables -/

/-- A row of `tasks`. -/
structure TaskRow where
  id : TaskId
  name : String
  description : Option String
  enabled : Bool
  executionPolicy : ExecutionPolicy
  workingDirectory : Option String
  environment : HashMap String String
  version : ℤ
  createdAt : DateTime
  updatedAt : DateTime

/-- A row of `triggers`. -/
structure TriggerRow where
  taskId : TaskId
  config : Trigger

/-- A row of `actions`. -/
structure ActionRow where
  taskId : TaskId
  config : Action

def TriggerRow.id (row : TriggerRow) : TriggerId := row.config.id

def ActionRow.id (row : ActionRow) : ActionId := row.config.id

structure Database where
  tasks : Table TaskRow.id
  triggers : Table TriggerRow.id
  actions : Table ActionRow.id

def Database.empty : Database := ⟨.empty, .empty, .empty⟩

/-! ## The repository -/

/-- `ORDER BY sequence ASC`. -/
def sortBySequence (actions : List Action) : List Action :=
  actions.insertionSort fun a b => a.sequence ≤ b.sequence

namespace Database

def triggersOf (db : Database) (id : TaskId) : List Trigger :=
  (db.triggers.rows.filter (·.taskId = id)).map TriggerRow.config

def actionsOf (db : Database) (id : TaskId) : List Action :=
  sortBySequence ((db.actions.rows.filter (·.taskId = id)).map ActionRow.config)

/-- Model of `find_by_id` (lines 68–132). -/
def findById (db : Database) (id : TaskId) : Option Task :=
  (db.tasks.find id).map fun row =>
    { id := id
      name := row.name
      description := row.description
      enabled := row.enabled
      triggers := db.triggersOf id
      actions := db.actionsOf id
      executionPolicy := row.executionPolicy
      workingDirectory := row.workingDirectory
      environment := row.environment
      version := row.version
      createdAt := row.createdAt
      updatedAt := row.updatedAt }

/-- Model of `find_all_enabled` (lines 50–66). -/
def findAllEnabled (db : Database) : List Task :=
  (db.tasks.rows.filter (·.enabled)).filterMap fun row => db.findById row.id

end Database

/-- The row that `save` inserts for a task. -/
def TaskRow.ofTask (task : Task) : TaskRow where
  id := task.id
  name := task.name
  description := task.description
  enabled := task.enabled
  executionPolicy := task.executionPolicy
  workingDirectory := task.workingDirectory
  environment := task.environment
  version := task.version
  createdAt := task.createdAt
  updatedAt := task.updatedAt

/-- `ON CONFLICT(id) DO UPDATE SET ..` in `save`. -/
def TaskRow.update (excluded row : TaskRow) : TaskRow :=
  { excluded with id := row.id, version := row.version + 1, createdAt := row.createdAt }

theorem TaskRow.update_id (excluded row : TaskRow) : (excluded.update row).id = row.id := rfl

namespace Database

/-- Model of `save` (lines 134–219); `none` if a trigger or action id is taken. -/
def save (db : Database) (task : Task) : Option Database := do
  let row := TaskRow.ofTask task
  let tasks := db.tasks.upsert row row.update row.update_id
  let triggers ← Table.insertAll (task.triggers.map fun trigger => ⟨task.id, trigger⟩)
    (db.triggers.deleteWhere fun row => decide (row.taskId = task.id))
  let actions ← Table.insertAll (task.actions.map fun action => ⟨task.id, action⟩)
    (db.actions.deleteWhere fun row => decide (row.taskId = task.id))
  some ⟨tasks, triggers, actions⟩

/-- Model of `delete` (lines 221–228), with `ON DELETE CASCADE`. -/
def delete (db : Database) (id : TaskId) : Database where
  tasks := db.tasks.deleteKey id
  triggers := db.triggers.deleteWhere fun row => decide (row.taskId = id)
  actions := db.actions.deleteWhere fun row => decide (row.taskId = id)

/-! ## Reading after writing -/

theorem findById_id {db : Database} {id : TaskId} {task : Task} (h : db.findById id = some task) :
    task.id = id := by
  obtain ⟨row, -, rfl⟩ := Option.map_eq_some_iff.mp h
  rfl

/-- Triggers of a stored task have distinct ids. -/
theorem findById_distinct {db : Database} {id : TaskId} {task : Task}
    (h : db.findById id = some task) : task.DistinctTriggerIds := by
  obtain ⟨row, -, rfl⟩ := Option.map_eq_some_iff.mp h
  show ((db.triggersOf id).map Trigger.id).Nodup
  rw [triggersOf, List.map_map]
  exact db.triggers.nodup.sublist (List.filter_sublist.map _)

theorem sortBySequence_idem (actions : List Action) :
    sortBySequence (sortBySequence actions) = sortBySequence actions := by
  have htotal : Std.Total fun a b : Action => a.sequence ≤ b.sequence :=
    ⟨fun a b => Nat.le_total a.sequence b.sequence⟩
  have htrans : IsTrans Action fun a b => a.sequence ≤ b.sequence :=
    ⟨fun _ _ _ => Nat.le_trans⟩
  exact (List.pairwise_insertionSort _ actions).insertionSort_eq

/-- Actions of a stored task are in order. -/
theorem findById_sorted {db : Database} {id : TaskId} {task : Task}
    (h : db.findById id = some task) : sortBySequence task.actions = task.actions := by
  obtain ⟨row, -, rfl⟩ := Option.map_eq_some_iff.mp h
  exact sortBySequence_idem _

/-- The task that `save` leaves in the database. -/
def stored (db : Database) (task : Task) : Task :=
  { task with
    actions := sortBySequence task.actions
    version := ((db.tasks.find task.id).map (·.version + 1)).getD task.version
    createdAt := ((db.tasks.find task.id).map TaskRow.createdAt).getD task.createdAt }

theorem save_eq_some {db db' : Database} {task : Task} (h : db.save task = some db') :
    db'.tasks = db.tasks.upsert (TaskRow.ofTask task) (TaskRow.ofTask task).update
      (TaskRow.update_id _) ∧
      db'.triggers.rows = (db.triggers.rows.filter fun row => !decide (row.taskId = task.id)) ++
        task.triggers.map (fun trigger => ⟨task.id, trigger⟩) ∧
      db'.actions.rows = (db.actions.rows.filter fun row => !decide (row.taskId = task.id)) ++
        task.actions.map (fun action => ⟨task.id, action⟩) := by
  obtain ⟨triggers, htriggers, h⟩ := Option.bind_eq_some_iff.mp h
  obtain ⟨actions, hactions, h⟩ := Option.bind_eq_some_iff.mp h
  cases h
  exact ⟨rfl, Table.rows_insertAll htriggers, Table.rows_insertAll hactions⟩

/-- A saved task is read back with its actions in order, its first `created_at`
    and the next version; other tasks are as before. -/
theorem findById_save {db db' : Database} {task : Task} (h : db.save task = some db')
    (id : TaskId) :
    db'.findById id = if id = task.id then some (db.stored task) else db.findById id := by
  obtain ⟨htasks, htriggers, hactions⟩ := save_eq_some h
  have htr : db'.triggersOf id = if id = task.id then task.triggers else db.triggersOf id := by
    rw [triggersOf, htriggers, Table.filter_replaced _ _ _ _ _ (by simp)]
    split_ifs
    · rw [List.map_map]
      exact List.map_id task.triggers
    · rfl
  have hac : db'.actionsOf id =
      if id = task.id then sortBySequence task.actions else db.actionsOf id := by
    rw [actionsOf, hactions, Table.filter_replaced _ _ _ _ _ (by simp)]
    split_ifs
    · rw [List.map_map]
      exact congrArg sortBySequence (List.map_id task.actions)
    · rfl
  have hrow : db'.tasks.find id = if id = task.id then
      some (((db.tasks.find id).map (TaskRow.ofTask task).update).getD (TaskRow.ofTask task))
      else db.tasks.find id := by
    rw [htasks]
    exact Table.find_upsert _ _ _ _ _
  rw [findById, hrow, htr, hac]
  split_ifs with hid
  · subst hid
    rw [Option.map_some, stored]
    cases db.tasks.find task.id <;> rfl
  · rfl

theorem stored_distinct {db db' : Database} {task : Task} (h : db.save task = some db') :
    task.DistinctTriggerIds := by
  have hfind := findById_save h task.id
  rw [if_pos rfl] at hfind
  have hdistinct : (db.stored task).DistinctTriggerIds := findById_distinct hfind
  exact hdistinct

theorem findById_delete (db : Database) (deleted id : TaskId) :
    (db.delete deleted).findById id = if id = deleted then none else db.findById id := by
  rw [findById, delete, Table.find_deleteKey]
  split_ifs with hid
  · rfl
  · have htr : (db.delete deleted).triggersOf id = db.triggersOf id := by
      have h := Table.filter_replaced TriggerRow.taskId db.triggers.rows [] deleted id (by simp)
      rw [if_neg hid, List.append_nil] at h
      exact congrArg (List.map TriggerRow.config) h
    have hac : (db.delete deleted).actionsOf id = db.actionsOf id := by
      have h := Table.filter_replaced ActionRow.taskId db.actions.rows [] deleted id (by simp)
      rw [if_neg hid, List.append_nil] at h
      exact congrArg (fun rows => sortBySequence (rows.map ActionRow.config)) h
    rw [findById, ← htr, ← hac]
    rfl

/-! ## The enabled tasks -/

theorem mem_findAllEnabled {db : Database} {task : Task} :
    task ∈ db.findAllEnabled ↔ db.findById task.id = some task ∧ task.enabled = true := by
  rw [findAllEnabled, List.mem_filterMap]
  constructor
  · rintro ⟨row, hrow, hfind⟩
    obtain ⟨hmem, hen⟩ := List.mem_filter.mp hrow
    have hid := findById_id hfind
    refine ⟨hid ▸ hfind, ?_⟩
    have hrow' : db.tasks.find row.id = some row := Table.find_eq_some.mpr ⟨hmem, rfl⟩
    rw [findById, hrow', Option.map_some, Option.some.injEq] at hfind
    rw [← hfind]
    exact hen
  · rintro ⟨hfind, hen⟩
    obtain ⟨row, hrow, heq⟩ := Option.map_eq_some_iff.mp hfind
    obtain ⟨hmem, hid⟩ := Table.find_eq_some.mp hrow
    refine ⟨row, List.mem_filter.mpr ⟨hmem, ?_⟩, hid ▸ hfind⟩
    rw [← heq] at hen
    exact hen

end Database

end EasyJob.Persistence
