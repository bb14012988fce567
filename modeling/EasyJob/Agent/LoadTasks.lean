import EasyJob.Agent.Service
import EasyJob.Persistence.FindEnabled

/-!
# Loading with undecodable tasks

`init_shared` (`apps/agent/src/service.rs` lines 78–96) loads the enabled tasks and
sends their commands. `find_all_enabled` skips an id that does not parse, but any
other row that does not decode ends it with an error, and with it the start-up.

* `loadsDecodable_iff`: the start-up goes on with every task that decodes exactly
  if every enabled task whose id parses does.
* `Represents.loadTasks`: what is sent is what the service starts with.
-/

namespace EasyJob.Agent

open EasyJob.Chrono EasyJob.Domain EasyJob.Scheduler EasyJob.Persistence
  EasyJob.Persistence.Sqlite

/-! ## Start-up -/

section Load

variable (parse : String → Option TaskId) (texts : Texts) (db : Sqlite.Database)

/-- The commands that `init_shared` sends to the scheduler, or the error that it returns. -/
def loadTasks (now : ℕ → DateTime × DateTime) : Except ReadError (List SchedulerCommand) := do
  let enabledTasks ← Sqlite.findAllEnabled parse texts db now
  return enabledTasks.flatMap loadCommands

/-- Start-up goes on, and sends the commands of every enabled task whose rows all decode. -/
def LoadsDecodable : Prop :=
  ∀ now, ∃ commands, loadTasks parse texts db now = .ok commands ∧
    ∀ row ∈ db.tasks.rows, row.enabled = 1 → ∀ id, parse row.id = some id →
      Decodes texts db row →
        ∃ task, task.id = id ∧ Holds texts db row task ∧ loadCommands task <:+: commands

/-- Every enabled task whose id parses decodes. -/
structure EnabledDecode : Prop where
  /-- What is stored under the id, which is the row itself if `save` wrote it, decodes. -/
  decodes : ∀ row ∈ db.tasks.rows, row.enabled = 1 → ∀ id, parse row.id = some id →
    ∀ found, db.tasks.find (TaskId.text id) = some found → Decodes texts db found
  /-- A row that decodes holds what is stored under its id. -/
  found : ∀ row ∈ db.tasks.rows, row.enabled = 1 → ∀ id, parse row.id = some id →
    Decodes texts db row → ∃ found, db.tasks.find (TaskId.text id) = some found ∧
      ∀ task, Holds texts db found task → Holds texts db row task

end Load

variable {parse : String → Option TaskId} {texts : Texts} {db : Sqlite.Database}
  {now : ℕ → DateTime × DateTime} {commands : List SchedulerCommand}

theorem loadTasks_eq_ok_iff :
    loadTasks parse texts db now = .ok commands ↔
      ∃ tasks, Sqlite.findAllEnabled parse texts db now = .ok tasks ∧
        commands = tasks.flatMap loadCommands := by
  rw [loadTasks, bind_eq_ok_iff]
  simp [pure, Except.pure, eq_comm]

/-- The task of an `add_task` is among those that were loaded. -/
theorem mem_of_addTask_mem {tasks : List Task} {task : Task}
    (h : .AddTask task ∈ tasks.flatMap loadCommands) : task ∈ tasks := by
  obtain ⟨task', htask', hmem⟩ := List.mem_flatMap.mp h
  have heq : task = task' := by
    unfold loadCommands at hmem
    split at hmem <;> simpa using hmem
  rw [heq]
  exact htask'

theorem addTask_mem_loadCommands (task : Task) : .AddTask task ∈ loadCommands task := by
  unfold loadCommands
  split <;> exact List.mem_cons_self

theorem EnabledDecode.loads (h : EnabledDecode parse texts db) :
    LoadsDecodable parse texts db := by
  intro now
  have hok : ∃ tasks, Sqlite.findAllEnabled parse texts db now = .ok tasks := by
    apply loadRows_isOk now
    intro row hrow id hid now₁ now₂
    obtain ⟨hmem, henabled⟩ := List.mem_filter.mp hrow
    cases hfind : db.tasks.find (TaskId.text id) with
    | none => exact ⟨none, findById_of_find_none hfind⟩
    | some found =>
      rw [exists_findById_iff hfind]
      exact h.decodes row hmem (of_decide_eq_true henabled) id hid found hfind
  obtain ⟨tasks, htasks⟩ := hok
  refine ⟨_, loadTasks_eq_ok_iff.mpr ⟨tasks, htasks, rfl⟩, ?_⟩
  intro row hrow henabled id hid hdecodes
  obtain ⟨found, hfind, hsame⟩ := h.found row hrow henabled id hid hdecodes
  obtain ⟨task, htask⟩ := h.decodes row hrow henabled id hid found hfind
  obtain ⟨k, found', hfound', hmem⟩ := (loadRows_eq_ok htasks).1 row
    (List.mem_filter.mpr ⟨hrow, decide_eq_true henabled⟩) id hid
  rw [htask.findById hfind] at hfound'
  cases hfound'
  have hloaded := ((findById_eq_ok_iff hfind).mp (htask.findById hfind (now k).1 (now k).2)).1
  exact ⟨_, rfl, hsame _ hloaded,
    List.infix_of_mem_flatten (List.mem_map_of_mem (hmem _ rfl))⟩

theorem LoadsDecodable.enabledDecode (h : LoadsDecodable parse texts db) :
    EnabledDecode parse texts db := by
  have hread : ∀ now, ∃ tasks, Sqlite.findAllEnabled parse texts db now = .ok tasks := by
    intro now
    obtain ⟨commands, hcommands, -⟩ := h now
    obtain ⟨tasks, htasks, -⟩ := loadTasks_eq_ok_iff.mp hcommands
    exact ⟨tasks, htasks⟩
  refine ⟨?_, ?_⟩
  · intro row hrow henabled id hid found hfind
    obtain ⟨tasks, htasks⟩ := hread fun _ => (0, 0)
    obtain ⟨k, found', hfound', -⟩ := (loadRows_eq_ok htasks).1 row
      (List.mem_filter.mpr ⟨hrow, decide_eq_true henabled⟩) id hid
    exact (exists_findById_iff hfind _ _).mp ⟨found', hfound'⟩
  · intro row hrow henabled id hid hdecodes
    -- whatever the clock reads, the task sent for the row was read under its id
    have hsent : ∀ now : ℕ → DateTime × DateTime,
        ∃ found, db.tasks.find (TaskId.text id) = some found ∧ ∃ k task,
          findById texts (now k).1 (now k).2 db id = .ok (some task) ∧
            Holds texts db row task := by
      intro now
      obtain ⟨commands, hcommands, hsends⟩ := h now
      obtain ⟨task, hid', hholds, hloaded⟩ := hsends row hrow henabled id hid hdecodes
      obtain ⟨tasks, htasks, rfl⟩ := loadTasks_eq_ok_iff.mp hcommands
      have hmem := mem_of_addTask_mem (hloaded.subset (addTask_mem_loadCommands task))
      obtain ⟨k, id', hfound⟩ := (loadRows_eq_ok htasks).2 task hmem
      cases hfind : db.tasks.find (TaskId.text id') with
      | none =>
        rw [findById_of_find_none hfind] at hfound
        cases hfound
      | some found =>
        have hsame := ((findById_eq_ok_iff hfind).mp hfound).2.1
        rw [hid'] at hsame
        rw [← hsame] at hfind hfound
        exact ⟨found, hfind, k, task, hfound, hholds⟩
    obtain ⟨found, hfind, -⟩ := hsent fun _ => (0, 0)
    refine ⟨found, hfind, fun task htask => ?_⟩
    obtain ⟨found', hfind', k, task', hfound, hholds⟩ :=
      hsent fun _ => (task.createdAt, task.updatedAt)
    rw [htask.findById hfind, htask.getD_createdAt, htask.getD_updatedAt] at hfound
    cases hfound
    exact { hholds with }

/-- Loading one task does not depend on the others exactly if every enabled task whose id parses
    decodes. -/
theorem loadsDecodable_iff (parse : String → Option TaskId) (texts : Texts)
    (db : Sqlite.Database) :
    LoadsDecodable parse texts db ↔ EnabledDecode parse texts db :=
  ⟨LoadsDecodable.enabledDecode, EnabledDecode.loads⟩

/-- With ids as `save` writes them, a row is what is stored under its id. -/
theorem enabledDecode_iff
    (hsaved : ∀ row ∈ db.tasks.rows, ∀ id, parse row.id = some id → TaskId.text id = row.id) :
    EnabledDecode parse texts db ↔
      ∀ row ∈ db.tasks.rows, row.enabled = 1 → (parse row.id).isSome → Decodes texts db row := by
  have hfind : ∀ row ∈ db.tasks.rows, ∀ id, parse row.id = some id →
      db.tasks.find (TaskId.text id) = some row := by
    intro row hrow id hid
    rw [Table.find_eq_some]
    exact ⟨hrow, (hsaved row hrow id hid).symm⟩
  constructor
  · intro h row hrow henabled hid
    obtain ⟨id, hid⟩ := Option.isSome_iff_exists.mp hid
    exact h.decodes row hrow henabled id hid row (hfind row hrow id hid)
  · intro h
    refine ⟨?_, ?_⟩
    · intro row hrow henabled id hid found hfound
      rw [hfind row hrow id hid] at hfound
      cases hfound
      exact h row hrow henabled (Option.isSome_iff_exists.mpr ⟨id, hid⟩)
    · intro row hrow _ id hid _
      exact ⟨row, hfind row hrow id hid, fun _ htask => htask⟩

/-- Over decoded rows the commands are those that the service starts with. -/
theorem Represents.loadTasks {decoded : Persistence.Database} (h : Represents texts db decoded)
    (hparse : ∀ row ∈ decoded.tasks.rows, parse (TaskId.text row.id) = some row.id)
    (hround : ∀ id task, decoded.findById id = some task → texts.RoundTrips task)
    (env : Env) (wall : DateTime) (mono : ℤ) :
    Agent.loadTasks parse texts db now = .ok (service env wall mono decoded).init.loading := by
  rw [loadTasks_eq_ok_iff]
  exact ⟨decoded.findAllEnabled, h.findAllEnabled hparse hround, rfl⟩

/-! ## An undecodable task -/

/-- The row of a task whose environment does not decode. -/
def corruptRow : Sqlite.TaskRow :=
  { Sqlite.TaskRow.ofTask twoActionsTexts twoActions with
    id := TaskId.text ⟨2⟩, environmentJson := "" }

def corruptDatabase : Sqlite.Database :=
  let row := Sqlite.TaskRow.ofTask twoActionsTexts twoActions
  (Sqlite.Database.empty.upsertTask row row.update (Sqlite.TaskRow.update_id row)).upsertTask
    corruptRow corruptRow.update (Sqlite.TaskRow.update_id _)

/-- Reads the texts of the ids in `corruptDatabase`. -/
def parseId (text : String) : Option TaskId :=
  [⟨1⟩, ⟨2⟩].find? fun id => TaskId.text id = text

/-- Beside a task that decodes, one that does not ends the start-up. -/
theorem corrupt_task_stops_startup :
    Decodes twoActionsTexts corruptDatabase (.ofTask twoActionsTexts twoActions) ∧
    (∀ now commands, loadTasks parseId twoActionsTexts corruptDatabase now ≠ .ok commands) ∧
    ¬LoadsDecodable parseId twoActionsTexts corruptDatabase := by
  have hfind : corruptDatabase.tasks.find (TaskId.text ⟨2⟩) = some corruptRow := by decide +kernel
  have hmem : corruptRow ∈ corruptDatabase.tasks.rows := (Table.find_eq_some.mp hfind).1
  have hcorrupt : ¬Decodes twoActionsTexts corruptDatabase corruptRow := by
    rintro ⟨task, htask⟩
    have hnone : twoActionsTexts.environment.decode "" = none := by decide +kernel
    have hsome : twoActionsTexts.environment.decode "" = some task.environment := htask.environment
    rw [hnone] at hsome
    cases hsome
  have hstops : ∀ now commands,
      loadTasks parseId twoActionsTexts corruptDatabase now ≠ .ok commands := by
    intro now commands h
    obtain ⟨tasks, htasks, -⟩ := loadTasks_eq_ok_iff.mp h
    obtain ⟨k, found, hfound, -⟩ := (loadRows_eq_ok htasks).1 corruptRow
      (List.mem_filter.mpr ⟨hmem, rfl⟩) ⟨2⟩ (by decide +kernel)
    exact hcorrupt ((exists_findById_iff hfind _ _).mp ⟨found, hfound⟩)
  refine ⟨?_, hstops, fun hloads => ?_⟩
  · refine ⟨{ twoActions with triggers := [], actions := [] }, rfl, rfl, rfl, rfl, rfl, ?_, rfl, ?_,
      rfl, ?_, ?_⟩
    · exact twoActions_roundTrips.executionPolicy
    · exact twoActions_roundTrips.environment
    · intro t ht
      have hcreated := twoActions_roundTrips.createdAt
      exact Option.some.inj (hcreated.symm.trans ht)
    · intro t ht
      have hupdated := twoActions_roundTrips.updatedAt
      exact Option.some.inj (hupdated.symm.trans ht)
  · obtain ⟨commands, hcommands, -⟩ := hloads fun _ => (0, 0)
    exact hstops _ commands hcommands

end EasyJob.Agent
