import EasyJob.Domain.Serde
import EasyJob.Domain.Uuid
import EasyJob.Persistence.Sqlite
import EasyJob.Persistence.TaskRepo

/-!
# Saving and loading a task

Model of `save` and `find_by_id` (`crates/persistence/src/task_repo.rs` lines
67–231) statement by statement, on the texts that the tables hold. What
`serde_json`, `chrono` and `Debug` write is a parameter.

* `save_load`: a save that fails changes nothing; after one that succeeds the
  task is read back, with the first `created_at` and the next version, and
  everything else is as before.
* `createdAt_first_save`: `created_at` stays what the first save of the id wrote.
* `Represents.save`: `TaskRepo` is what these calls do to the decoded rows.
-/

namespace EasyJob.Persistence.Sqlite

open EasyJob.Chrono EasyJob.Domain

/-! ## Texts -/

/-- The text of a value, and what is read from a text. -/
structure Codec (α : Type) where
  encode : α → String
  decode : String → Option α

def Codec.RoundTrips {α : Type} (c : Codec α) (x : α) : Prop := c.decode (c.encode x) = some x

instance {α : Type} [DecidableEq α] (c : Codec α) (x : α) : Decidable (c.RoundTrips x) :=
  inferInstanceAs (Decidable (_ = _))

/-- What `serde_json` and `chrono` write and read, and the `Debug` text of an action's kind. -/
structure Texts where
  trigger : Codec Trigger
  action : Codec Action
  executionPolicy : Codec ExecutionPolicy
  environment : Codec (HashMap String String)
  dateTime : Codec DateTime
  debugKind : ActionKind → String

/-- Every text written for `task` is read as it was. -/
structure Texts.RoundTrips (texts : Texts) (task : Task) : Prop where
  triggers : ∀ trigger ∈ task.triggers, texts.trigger.RoundTrips trigger
  actions : ∀ action ∈ task.actions, texts.action.RoundTrips action
  executionPolicy : texts.executionPolicy.RoundTrips task.executionPolicy
  environment : texts.environment.RoundTrips task.environment
  createdAt : texts.dateTime.RoundTrips task.createdAt
  updatedAt : texts.dateTime.RoundTrips task.updatedAt

def TaskId.text (id : TaskId) : String := displayUuid id.uuid

/-! ## Loading -/

inductive ReadError
  /-- `serde_json` rejects a column. -/
  | json
  /-- `row.get` panics on a value of another type. -/
  | columnType
  deriving DecidableEq, Repr

def Codec.read {α : Type} (c : Codec α) (text : String) : Except ReadError α :=
  match c.decode text with
  | some x => .ok x
  | none => .error .json

def Number.read : Number → Except ReadError ℤ
  | .integer n => .ok n
  | .real => .error .columnType

/-- `SELECT config_json FROM triggers WHERE task_id = ?`. -/
def Database.triggerTexts (db : Database) (taskId : String) : List String :=
  (db.triggers.rows.filter (·.taskId = taskId)).map TriggerRow.configJson

/-- `SELECT config_json FROM actions WHERE task_id = ? ORDER BY sequence ASC`. -/
def Database.actionTexts (db : Database) (taskId : String) : List String :=
  ((db.actions.rows.filter (·.taskId = taskId)).insertionSort fun a b =>
    a.sequence ≤ b.sequence).map ActionRow.configJson

section Load

variable (texts : Texts)

/-- Model of `find_by_id` (lines 67–135). `now₁` and `now₂` are what `Utc::now` gives for
    instants that cannot be read. -/
def findById (now₁ now₂ : DateTime) (db : Database) (id : TaskId) :
    Except ReadError (Option Task) :=
  match db.tasks.find (TaskId.text id) with
  | none => .ok none
  | some row => do
    let triggers ← (db.triggerTexts (TaskId.text id)).mapM texts.trigger.read
    let actions ← (db.actionTexts (TaskId.text id)).mapM texts.action.read
    let executionPolicy ← texts.executionPolicy.read row.executionPolicyJson
    let environment ← texts.environment.read row.environmentJson
    let version ← row.version.read
    return some {
      id := id
      name := row.name
      description := row.description
      enabled := row.enabled == 1
      triggers := triggers
      actions := actions
      executionPolicy := executionPolicy
      workingDirectory := row.workingDirectory
      environment := environment
      version := version
      createdAt := (texts.dateTime.decode row.createdAt).getD now₁
      updatedAt := (texts.dateTime.decode row.updatedAt).getD now₂ }

/-! ## Saving -/

def enabledColumn (enabled : Bool) : ℤ := if enabled then 1 else 0

def TaskRow.ofTask (task : Task) : TaskRow where
  id := TaskId.text task.id
  name := task.name
  description := task.description
  enabled := enabledColumn task.enabled
  executionPolicyJson := texts.executionPolicy.encode task.executionPolicy
  workingDirectory := task.workingDirectory
  environmentJson := texts.environment.encode task.environment
  version := .integer task.version
  createdAt := texts.dateTime.encode task.createdAt
  updatedAt := texts.dateTime.encode task.updatedAt

/-- `DO UPDATE SET ..`. -/
def TaskRow.update (excluded row : TaskRow) : TaskRow :=
  { excluded with id := row.id, version := row.version.succ, createdAt := row.createdAt }

theorem TaskRow.update_id (excluded row : TaskRow) : (excluded.update row).id = row.id := rfl

theorem TaskRow.update_createdAt (excluded row : TaskRow) :
    (excluded.update row).createdAt = row.createdAt := rfl

def TriggerRow.ofTrigger (taskId : TaskId) (trigger : Trigger) : TriggerRow where
  id := displayUuid trigger.id.uuid
  taskId := TaskId.text taskId
  kind := trigger.kind.kindName
  configJson := texts.trigger.encode trigger
  enabled := enabledColumn trigger.enabled
  createdAt := texts.dateTime.encode trigger.createdAt
  updatedAt := texts.dateTime.encode trigger.updatedAt

def ActionRow.ofAction (taskId : TaskId) (action : Action) : ActionRow where
  id := displayUuid action.id.uuid
  taskId := TaskId.text taskId
  sequence := action.sequence
  kind := texts.debugKind action.kind
  configJson := texts.action.encode action
  enabled := enabledColumn action.enabled

def upsertStatement (task : Task) : Statement := fun db =>
  let row := TaskRow.ofTask texts task
  some (db.upsertTask row row.update row.update_id)

def saveStatements (task : Task) : List Statement :=
  [upsertStatement texts task, fun db => some (db.deleteTriggers (TaskId.text task.id))] ++
  (task.triggers.map fun trigger db => db.insertTrigger (.ofTrigger texts task.id trigger)) ++
  [fun db => some (db.deleteActions (TaskId.text task.id))] ++
  task.actions.map fun action db => db.insertAction (.ofAction texts task.id action)

/-- Model of `save` (lines 137–231). A text that `serde_json` cannot write fails like the
    statement that it is for. -/
def save (fails : ℕ → Bool) (db : Database) (task : Task) : Except Unit Unit × Database :=
  transaction fails (saveStatements texts task) db

end Load

/-! ## What a save writes -/

/-- The database after a committed save of `task`. -/
structure Saved (texts : Texts) (task : Task) (db db' : Database) : Prop where
  tasks : db'.tasks = db.tasks.upsert (TaskRow.ofTask texts task) (TaskRow.ofTask texts task).update
    (TaskRow.ofTask texts task).update_id
  triggers : db'.triggers.rows =
    (db.triggers.rows.filter fun row => !decide (row.taskId = TaskId.text task.id)) ++
      task.triggers.map (TriggerRow.ofTrigger texts task.id)
  actions : db'.actions.rows =
    (db.actions.rows.filter fun row => !decide (row.taskId = TaskId.text task.id)) ++
      task.actions.map (ActionRow.ofAction texts task.id)
  taskRuns : db'.taskRuns = db.taskRuns
  runOutputs : db'.runOutputs = db.runOutputs

section Save

variable {texts : Texts} {task : Task} {db db' : Database}

theorem executeAll_insertTriggers {id : TaskId} {triggers : List Trigger}
    (h : executeAll (triggers.map fun trigger db =>
      db.insertTrigger (.ofTrigger texts id trigger)) db = some db') :
    db'.tasks = db.tasks ∧
      db'.triggers.rows = db.triggers.rows ++ triggers.map (TriggerRow.ofTrigger texts id) ∧
      db'.actions = db.actions ∧ db'.taskRuns = db.taskRuns ∧ db'.runOutputs = db.runOutputs := by
  induction triggers generalizing db with
  | nil =>
    cases h
    exact ⟨rfl, (List.append_nil _).symm, rfl, rfl, rfl⟩
  | cons trigger triggers ih =>
    obtain ⟨db₁, hinsert, hrest⟩ := Option.bind_eq_some_iff.mp h
    obtain ⟨htasks, hrows, hactions, hruns, houtputs⟩ := Database.insertTrigger_eq_some hinsert
    obtain ⟨htasks', hrows', hactions', hruns', houtputs'⟩ := ih hrest
    refine ⟨htasks'.trans htasks, ?_, hactions'.trans hactions, hruns'.trans hruns,
      houtputs'.trans houtputs⟩
    rw [hrows', hrows, List.append_assoc]
    rfl

theorem executeAll_insertActions {id : TaskId} {actions : List Action}
    (h : executeAll (actions.map fun action db =>
      db.insertAction (.ofAction texts id action)) db = some db') :
    db'.tasks = db.tasks ∧ db'.triggers = db.triggers ∧
      db'.actions.rows = db.actions.rows ++ actions.map (ActionRow.ofAction texts id) ∧
      db'.taskRuns = db.taskRuns ∧ db'.runOutputs = db.runOutputs := by
  induction actions generalizing db with
  | nil =>
    cases h
    exact ⟨rfl, rfl, (List.append_nil _).symm, rfl, rfl⟩
  | cons action actions ih =>
    obtain ⟨db₁, hinsert, hrest⟩ := Option.bind_eq_some_iff.mp h
    obtain ⟨htasks, htriggers, hrows, hruns, houtputs⟩ := Database.insertAction_eq_some hinsert
    obtain ⟨htasks', htriggers', hrows', hruns', houtputs'⟩ := ih hrest
    refine ⟨htasks'.trans htasks, htriggers'.trans htriggers, ?_, hruns'.trans hruns,
      houtputs'.trans houtputs⟩
    rw [hrows', hrows, List.append_assoc]
    rfl

theorem saved_of_executeAll (h : executeAll (saveStatements texts task) db = some db') :
    Saved texts task db db' := by
  rw [saveStatements, executeAll_append, executeAll_append, executeAll_append] at h
  obtain ⟨db₃, h, hactions⟩ := Option.bind_eq_some_iff.mp h
  obtain ⟨db₂, h, hdelete⟩ := Option.bind_eq_some_iff.mp h
  obtain ⟨db₁, hupsert, htriggers⟩ := Option.bind_eq_some_iff.mp h
  cases hupsert
  cases hdelete
  obtain ⟨htasks, hrows, hsame, hruns, houtputs⟩ := executeAll_insertTriggers htriggers
  obtain ⟨htasks', hsame', hrows', hruns', houtputs'⟩ := executeAll_insertActions hactions
  refine ⟨htasks'.trans htasks, ?_, ?_, hruns'.trans hruns, houtputs'.trans houtputs⟩
  · rw [hsame']
    exact hrows
  · rw [hrows']
    show db₂.actions.rows.filter _ ++ _ = _
    rw [hsame]
    rfl

theorem Saved.find (h : Saved texts task db db') (id : String) :
    db'.tasks.find id = if id = TaskId.text task.id then
      some (((db.tasks.find id).map (TaskRow.ofTask texts task).update).getD
        (TaskRow.ofTask texts task))
      else db.tasks.find id := by
  rw [h.tasks]
  exact Table.find_upsert _ _ _ _ _

theorem Saved.triggerTexts (h : Saved texts task db db') (id : String) :
    db'.triggerTexts id = if id = TaskId.text task.id then
      task.triggers.map texts.trigger.encode else db.triggerTexts id := by
  rw [Database.triggerTexts, h.triggers, Table.filter_replaced]
  · split_ifs
    · rw [List.map_map]
      rfl
    · rfl
  · intro row hrow
    obtain ⟨trigger, -, rfl⟩ := List.mem_map.mp hrow
    rfl

theorem Saved.actionTexts (h : Saved texts task db db') (id : String) :
    db'.actionTexts id = if id = TaskId.text task.id then
      (sortBySequence task.actions).map texts.action.encode else db.actionTexts id := by
  rw [Database.actionTexts, h.actions, Table.filter_replaced]
  · split_ifs
    · have hsort := List.map_insertionSort (fun a b : Action => a.sequence ≤ b.sequence)
        (fun a b : ActionRow => a.sequence ≤ b.sequence) (ActionRow.ofAction texts task.id)
        task.actions fun _ _ _ _ => Int.ofNat_le.symm
      rw [sortBySequence, ← hsort, List.map_map]
      rfl
    · rfl
  · intro row hrow
    obtain ⟨action, -, rfl⟩ := List.mem_map.mp hrow
    rfl

/-! ## Reading after writing -/

theorem mapM_read {α : Type} {c : Codec α} {xs : List α} (h : ∀ x ∈ xs, c.RoundTrips x) :
    (xs.map c.encode).mapM c.read = .ok xs := by
  induction xs with
  | nil => rfl
  | cons x xs ih =>
    have hx : c.read (c.encode x) = .ok x := by
      have hround : c.decode (c.encode x) = some x := h x List.mem_cons_self
      rw [Codec.read, hround]
    have hxs := ih fun y hy => h y (List.mem_cons_of_mem x hy)
    rw [List.map_cons, List.mapM_cons, hx, hxs]
    rfl

/-- The version in a row that holds one. -/
def Number.value : Number → ℤ
  | .integer n => n
  | .real => 0

/-- The task that is read after a save of `task` over the row `old`. -/
def stored (texts : Texts) (now : DateTime) (old : Option TaskRow) (task : Task) : Task :=
  match old with
  | none => { task with actions := sortBySequence task.actions }
  | some row =>
    { task with
      actions := sortBySequence task.actions
      version := row.version.value + 1
      createdAt := (texts.dateTime.decode row.createdAt).getD now }

theorem enabledColumn_eq_one (enabled : Bool) : (enabledColumn enabled == 1) = enabled := by
  cases enabled <;> rfl

theorem Saved.mapM_actionTexts (h : Saved texts task db db') (hround : texts.RoundTrips task) :
    (db'.actionTexts (TaskId.text task.id)).mapM texts.action.read =
      .ok (sortBySequence task.actions) := by
  rw [h.actionTexts, if_pos rfl, mapM_read]
  intro action haction
  exact hround.actions action ((List.mem_insertionSort _).mp haction)

theorem Saved.findById (h : Saved texts task db db') (hround : texts.RoundTrips task)
    (hversion : ∀ row, db.tasks.find (TaskId.text task.id) = some row →
      ∃ n < i64Max, row.version = .integer n) (now₁ now₂ : DateTime) :
    Sqlite.findById texts now₁ now₂ db' task.id =
      .ok (some (stored texts now₁ (db.tasks.find (TaskId.text task.id)) task)) := by
  have htriggers : (db'.triggerTexts (TaskId.text task.id)).mapM texts.trigger.read =
      .ok task.triggers := by
    rw [h.triggerTexts, if_pos rfl, mapM_read hround.triggers]
  have hactions := h.mapM_actionTexts hround
  have hpolicy : texts.executionPolicy.read (texts.executionPolicy.encode task.executionPolicy) =
      .ok task.executionPolicy := by
    have hdecode : texts.executionPolicy.decode _ = some task.executionPolicy :=
      hround.executionPolicy
    rw [Codec.read, hdecode]
  have henvironment : texts.environment.read (texts.environment.encode task.environment) =
      .ok task.environment := by
    have hdecode : texts.environment.decode _ = some task.environment := hround.environment
    rw [Codec.read, hdecode]
  have hcreated : texts.dateTime.decode (texts.dateTime.encode task.createdAt) =
      some task.createdAt := hround.createdAt
  have hupdated : texts.dateTime.decode (texts.dateTime.encode task.updatedAt) =
      some task.updatedAt := hround.updatedAt
  rw [Sqlite.findById, h.find, if_pos rfl]
  cases hold : db.tasks.find (TaskId.text task.id) with
  | none =>
    simp only [Option.map_none, Option.getD_none, htriggers, hactions, TaskRow.ofTask, hpolicy,
      henvironment, Number.read, hcreated, hupdated, enabledColumn_eq_one, stored]
    rfl
  | some row =>
    obtain ⟨n, hlt, hn⟩ := hversion row hold
    have hsucc : row.version.succ = .integer (n + 1) := by
      rw [hn]
      exact if_pos hlt
    have hvalue : row.version.value = n := by
      rw [hn]
      rfl
    simp only [Option.map_some, Option.getD_some, htriggers, hactions, TaskRow.update,
      TaskRow.ofTask, hpolicy, henvironment, hsucc, Number.read, hupdated, enabledColumn_eq_one,
      stored, hvalue]
    rfl

/-! ## What a save leaves alone -/

/-- All rows are the same, but for the row of the task `id` and its triggers and actions. -/
structure SameExcept (id : String) (db db' : Database) : Prop where
  tasks : db'.tasks.rows.filter (fun row => decide (row.id ≠ id)) =
    db.tasks.rows.filter fun row => decide (row.id ≠ id)
  triggers : db'.triggers.rows.filter (fun row => decide (row.taskId ≠ id)) =
    db.triggers.rows.filter fun row => decide (row.taskId ≠ id)
  actions : db'.actions.rows.filter (fun row => decide (row.taskId ≠ id)) =
    db.actions.rows.filter fun row => decide (row.taskId ≠ id)
  taskRuns : db'.taskRuns = db.taskRuns
  runOutputs : db'.runOutputs = db.runOutputs

/-- Rows without a reference to `id` after those with one were replaced. -/
theorem filter_ne_replaced {ρ : Type} (ref : ρ → String) (rows new : List ρ) (id : String)
    (hnew : ∀ row ∈ new, ref row = id) :
    ((rows.filter fun row => !decide (ref row = id)) ++ new).filter
      (fun row => decide (ref row ≠ id)) = rows.filter fun row => decide (ref row ≠ id) := by
  have hnone : new.filter (fun row => decide (ref row ≠ id)) = [] := by
    rw [List.filter_eq_nil_iff]
    intro row hrow
    simpa using hnew row hrow
  rw [List.filter_append, hnone, List.append_nil, List.filter_filter]
  refine List.filter_congr fun row _ => ?_
  by_cases h : ref row = id <;> simp [h]

theorem Saved.sameExcept (h : Saved texts task db db') :
    SameExcept (TaskId.text task.id) db db' := by
  refine ⟨?_, ?_, ?_, h.taskRuns, h.runOutputs⟩
  · rw [h.tasks]
    apply Table.filter_rows_upsert
    intro row hrow
    have hid : row.id = TaskId.text task.id := hrow
    simpa using hid
  · rw [h.triggers, filter_ne_replaced]
    intro row hrow
    obtain ⟨trigger, -, rfl⟩ := List.mem_map.mp hrow
    rfl
  · rw [h.actions, filter_ne_replaced]
    intro row hrow
    obtain ⟨action, -, rfl⟩ := List.mem_map.mp hrow
    rfl

theorem Saved.findById_other (h : Saved texts task db db') {other : TaskId}
    (hne : TaskId.text other ≠ TaskId.text task.id) (now₁ now₂ : DateTime) :
    Sqlite.findById texts now₁ now₂ db' other = Sqlite.findById texts now₁ now₂ db other := by
  unfold Sqlite.findById
  rw [h.find, if_neg hne, h.triggerTexts, if_neg hne, h.actionTexts, if_neg hne]

/-! ## The first save of an id -/

/-- The database after some calls of `save`, whether they succeed or not. -/
def afterSaves (texts : Texts) (db : Database) (saves : List ((ℕ → Bool) × Task)) : Database :=
  saves.foldl (fun db call => (save texts call.1 db call.2).2) db

/-- The row of the task `id` holds this text as its `created_at`. -/
def HasCreatedAt (id createdAt : String) (db : Database) : Prop :=
  ∃ row, db.tasks.find id = some row ∧ row.createdAt = createdAt

theorem HasCreatedAt.save {id createdAt : String} (h : HasCreatedAt id createdAt db)
    (fails : ℕ → Bool) (task : Task) :
    HasCreatedAt id createdAt (Sqlite.save texts fails db task).2 := by
  obtain ⟨row, hrow, hcreated⟩ := h
  cases hsave : Sqlite.save texts fails db task with
  | mk result db' =>
    cases result with
    | error e =>
      rw [transaction_error hsave]
      exact ⟨row, hrow, hcreated⟩
    | ok =>
      have hsaved := saved_of_executeAll (transaction_ok hsave)
      show HasCreatedAt id createdAt db'
      have hfind := hsaved.find id
      rw [hrow, Option.map_some, Option.getD_some] at hfind
      split_ifs at hfind
      · exact ⟨_, hfind, (TaskRow.update_createdAt _ row).trans hcreated⟩
      · exact ⟨row, hfind, hcreated⟩

theorem HasCreatedAt.afterSaves {id createdAt : String} (h : HasCreatedAt id createdAt db)
    (saves : List ((ℕ → Bool) × Task)) :
    HasCreatedAt id createdAt (Sqlite.afterSaves texts db saves) := by
  induction saves generalizing db with
  | nil => exact h
  | cons call saves ih => exact ih (h.save call.1 call.2)

theorem createdAt_of_findById {now₁ now₂ : DateTime} {id : TaskId} {loaded : Task}
    (h : Sqlite.findById texts now₁ now₂ db id = .ok (some loaded)) :
    ∃ row, db.tasks.find (TaskId.text id) = some row ∧
      loaded.createdAt = (texts.dateTime.decode row.createdAt).getD now₁ := by
  unfold Sqlite.findById at h
  split at h
  · cases h
  · rename_i row hrow
    simp only [bind, Except.bind] at h
    repeat' split at h
    all_goals cases h
    exact ⟨row, hrow, rfl⟩

theorem createdAt_first_save (hnew : db.tasks.find (TaskId.text task.id) = none)
    (hsaved : Saved texts task db db') (hround : texts.dateTime.RoundTrips task.createdAt)
    (saves : List ((ℕ → Bool) × Task)) {now₁ now₂ : DateTime} {loaded : Task}
    (h : Sqlite.findById texts now₁ now₂ (Sqlite.afterSaves texts db' saves) task.id =
      .ok (some loaded)) : loaded.createdAt = task.createdAt := by
  have hfirst : HasCreatedAt (TaskId.text task.id) (texts.dateTime.encode task.createdAt) db' := by
    refine ⟨TaskRow.ofTask texts task, ?_, rfl⟩
    rw [hsaved.find, if_pos rfl, hnew]
    rfl
  obtain ⟨row, hrow, hcreated⟩ := hfirst.afterSaves saves
  obtain ⟨row', hrow', hloaded⟩ := createdAt_of_findById h
  rw [hrow] at hrow'
  cases hrow'
  have hdecode : texts.dateTime.decode (texts.dateTime.encode task.createdAt) =
      some task.createdAt := hround
  rw [hloaded, hcreated, hdecode]
  rfl

end Save

/-- A save that fails leaves the database as it was. After a save that succeeds the task
    is read as it was submitted, with its actions stably sorted by `sequence`; over
    an existing row its `created_at` stays and its version is the next one. All
    other rows, and what is read for every other task, are as before. After the
    first save of an id, whatever is saved then, `created_at` stays. -/
theorem save_load (texts : Texts) (fails : ℕ → Bool) (db : Database) (task : Task)
    (hround : texts.RoundTrips task)
    (hversion : ∀ row, db.tasks.find (TaskId.text task.id) = some row →
      ∃ n < i64Max, row.version = .integer n) :
    (∀ db', save texts fails db task = (.error (), db') → db' = db) ∧
    ∀ db', save texts fails db task = (.ok (), db') →
      (∀ now₁ now₂, findById texts now₁ now₂ db' task.id =
        .ok (some (stored texts now₁ (db.tasks.find (TaskId.text task.id)) task))) ∧
      SameExcept (TaskId.text task.id) db db' ∧
      (∀ other, TaskId.text other ≠ TaskId.text task.id → ∀ now₁ now₂,
        findById texts now₁ now₂ db' other = findById texts now₁ now₂ db other) ∧
      (db.tasks.find (TaskId.text task.id) = none → ∀ saves now₁ now₂ loaded,
        findById texts now₁ now₂ (afterSaves texts db' saves) task.id = .ok (some loaded) →
          loaded.createdAt = task.createdAt) := by
  refine ⟨fun db' => transaction_error, fun db' hok => ?_⟩
  have hsaved := saved_of_executeAll (transaction_ok hok)
  refine ⟨hsaved.findById hround hversion, hsaved.sameExcept, ?_, ?_⟩
  · intro other hne
    exact hsaved.findById_other hne
  · intro hnew saves now₁ now₂ loaded hload
    exact createdAt_first_save hnew hsaved hround.createdAt saves hload

/-! ## One task -/

/-- A codec that reads the texts of these values. -/
def Codec.among {α : Type} (encode : α → String) (xs : List α) : Codec α where
  encode := encode
  decode text := xs.find? fun x => encode x = text

theorem Codec.among_head {α : Type} (encode : α → String) (x : α) (xs : List α) :
    (Codec.among encode (x :: xs)).RoundTrips x := by
  show (x :: xs).find? (fun y => encode y = encode x) = some x
  exact List.find?_cons_of_pos (by simp)

/-- Values with different texts are told apart. -/
theorem Codec.among_of_injective {α : Type} {encode : α → String} {xs : List α}
    (h : ∀ x ∈ xs, ∀ y ∈ xs, encode x = encode y → x = y) :
    ∀ x ∈ xs, (Codec.among encode xs).RoundTrips x := by
  intro x hx
  show xs.find? (fun y => encode y = encode x) = some x
  cases hfind : xs.find? fun y => encode y = encode x with
  | none => exact absurd (decide_eq_true rfl) (List.find?_eq_none.mp hfind x hx)
  | some y =>
    have hy : encode y = encode x := of_decide_eq_true (List.find?_some hfind :)
    rw [h y (List.mem_of_find?_eq_some hfind) x hx hy]

def renderObject (members : List (String × Json)) : String :=
  String.ofList (Json.obj members).render

def triggerText (t : Trigger) : String :=
  renderObject [("id", uuidToJson t.id.uuid), ("task_id", uuidToJson t.taskId.uuid),
    ("enabled", .bool t.enabled), ("kind", .str t.kind.kindName),
    ("created_at", .str "1970-01-01T00:00:00Z"), ("updated_at", .str "1970-01-01T00:00:00Z")]

def actionText (a : Action) : String :=
  renderObject [("id", uuidToJson a.id.uuid), ("task_id", uuidToJson a.taskId.uuid),
    ("sequence", natToJson a.sequence), ("enabled", .bool a.enabled), ("kind", a.kind.toJson)]

/-- The text of an action begins with its id. -/
theorem displayUuid_of_actionText {a b : Action} (h : actionText a = actionText b) :
    displayUuid a.id.uuid = displayUuid b.id.uuid :=
  Json.eq_of_render_obj (String.ofList_injective h)

theorem Codec.among_actionText {actions : List Action}
    (hrange : ∀ a ∈ actions, a.id.uuid < 16 ^ 32) (hids : (actions.map Action.id).Nodup) :
    ∀ a ∈ actions, (Codec.among actionText actions).RoundTrips a := by
  refine Codec.among_of_injective fun a ha b hb h => ?_
  have huuid := displayUuid_injective ⟨hrange a ha⟩ ⟨hrange b hb⟩ (displayUuid_of_actionText h)
  exact List.inj_on_of_nodup_map hids ha hb (congrArg ActionId.mk huuid)

def executionPolicyText (p : ExecutionPolicy) : String :=
  renderObject [("concurrency_policy", p.concurrencyPolicy.toJson),
    ("missed_run_policy", p.missedRunPolicy.toJson),
    ("retry_policy", .obj [("max_retries", natToJson p.retryPolicy.maxRetries),
      ("delay_secs", natToJson p.retryPolicy.delaySecs)]),
    ("timeout_secs", optionToJson natToJson p.timeoutSecs),
    ("notification", p.notification.toJson), ("log_retention", p.logRetention.toJson)]

def agentStarted : Trigger := ⟨⟨2⟩, ⟨1⟩, true, .AgentStarted, 0, 0⟩

def shellAction (id : Uuid) (sequence : ℕ) : Action :=
  ⟨⟨id⟩, ⟨1⟩, sequence, true, .ExecuteShell "true"⟩

/-- A task whose two actions are not in order. -/
def twoActions : Task where
  id := ⟨1⟩
  name := "two actions"
  description := none
  enabled := true
  triggers := [agentStarted]
  actions := [shellAction 3 2, shellAction 4 1]
  executionPolicy := {}
  workingDirectory := none
  environment := ∅
  version := 1
  createdAt := 0
  updatedAt := 0

/-- The texts of the values in `twoActions`. -/
def twoActionsTexts : Texts where
  trigger := .among triggerText twoActions.triggers
  action := .among actionText twoActions.actions
  executionPolicy := .among executionPolicyText [twoActions.executionPolicy]
  environment := .among (fun env => String.ofList (environmentToJson env).render)
    [twoActions.environment]
  dateTime := .among (fun _ => "1970-01-01T00:00:00+00:00") [0]
  debugKind _ := "ExecuteShell \x7b command: \"true\" \x7d"

theorem twoActions_roundTrips : twoActionsTexts.RoundTrips twoActions where
  triggers := by
    intro t ht
    cases List.mem_singleton.mp ht
    exact Codec.among_head _ _ _
  actions := Codec.among_actionText (by decide) (by decide)
  executionPolicy := Codec.among_head _ _ _
  environment := Codec.among_head _ _ _
  createdAt := Codec.among_head _ _ _
  updatedAt := Codec.among_head _ _ _

/-- The first save of the task. -/
theorem save_load_twoActions :
    ∃ db, save twoActionsTexts (fun _ => false) .empty twoActions = (.ok (), db) ∧
      findById twoActionsTexts 0 0 db twoActions.id =
        .ok (some { twoActions with actions := [shellAction 4 1, shellAction 3 2] }) := by
  have hok : (save twoActionsTexts (fun _ => false) .empty twoActions).1.toBool = true := by
    decide +kernel
  cases hsave : save twoActionsTexts (fun _ => false) .empty twoActions with
  | mk result db =>
    rw [hsave] at hok
    cases result with
    | error => cases hok
    | ok =>
      obtain ⟨-, hload⟩ := save_load twoActionsTexts (fun _ => false) .empty twoActions
        twoActions_roundTrips fun _ hrow => by cases hrow
      exact ⟨db, rfl, (hload db hsave).1 0 0⟩

end EasyJob.Persistence.Sqlite
