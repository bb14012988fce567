import EasyJob.Agent.Frames
import EasyJob.Agent.Overview
import EasyJob.Lib.Transition

/-!
# The log of executions

Model of `find_run_by_id`, `find_recent_runs` and `get_outputs`
(`crates/persistence/src/execution_repo.rs` lines 93–117 and 133–152), and what the
tables `task_runs` and `run_outputs` are for: a log that has, for each execution,
what was last written of it and the output so far, chunk by chunk.

The machine `runRepository` executes the statements of the repository on the
database in any order, each of which may fail for a reason of its own.

* `Records.execute`: every statement does to the log what it says.
* `repository_keeps_log`: after any statements, the queries for one execution answer
  from the log.
* `recent_runs_of_log`: `find_recent_runs` answers with the runs of the log that
  started last.
-/

namespace EasyJob.Agent

open EasyJob.Chrono EasyJob.Domain EasyJob.Persistence.Sqlite Transition

/-! ## The queries -/

def outputRecord (row : RunOutputRow) : ExecutionOutputRecord :=
  ⟨row.stream, row.content, row.createdAt⟩

/-- Model of `get_outputs` (lines 133–152). -/
def getOutputs (db : Database) (runId : ExecutionId) : List ExecutionOutputRecord :=
  ((db.runOutputs.rows.filter fun row => decide (row.runId = ExecutionId.text runId)).mergeSort
    fun a b => decide (a.id ≤ b.id)).map outputRecord

section Find

variable (texts : Texts) (reader : RunReader)

/-- Model of `find_run_by_id` (lines 93–104). -/
def findRunById (now : DateTime) (db : Database) (id : ExecutionId) :
    Except RunError (Option Execution) :=
  match db.taskRuns.find (ExecutionId.text id) with
  | some row => (mapRowToExecution texts reader now row).map some
  | none => .ok none

/-- Model of `find_recent_runs` (lines 106–117); `order` puts the rows in the order of
    `ORDER BY started_at DESC`, which leaves open how equal ones come. -/
def findRecentRuns (order : List TaskRunRow → List TaskRunRow) (now : TaskRunRow → DateTime)
    (db : Database) (limit : ℕ) : Except RunError (List Execution) :=
  ((order db.taskRuns.rows).take limit).mapM fun row => mapRowToExecution texts reader (now row) row

end Find

/-- `order` is an `ORDER BY started_at DESC`. -/
structure OrdersByStart (order : List TaskRunRow → List TaskRunRow) : Prop where
  perm : ∀ rows, (order rows).Perm rows
  desc : ∀ rows, (order rows).Pairwise fun a b => b.startedAt ≤ a.startedAt

/-- Rows that started at the same time stay as they are. -/
def latestFirst (rows : List TaskRunRow) : List TaskRunRow :=
  rows.mergeSort fun a b => decide (b.startedAt ≤ a.startedAt)

theorem latestFirst_ordersByStart : OrdersByStart latestFirst where
  perm rows := List.mergeSort_perm rows _
  desc rows := by
    refine (List.pairwise_mergeSort (fun a b c hab hbc => ?_) (fun a b => ?_) rows).imp
      of_decide_eq_true
    · exact decide_eq_true (String.le_trans (of_decide_eq_true hbc) (of_decide_eq_true hab))
    · rcases String.le_total b.startedAt a.startedAt with hle | hle <;> simp [hle]

/-! ## The log -/

/-- What is recorded of an execution. -/
structure LogEntry where
  run : Execution
  outputs : List ExecutionOutputRecord

/-- A statement of the repositories on runs, or one on tasks that runs depend on. -/
inductive LogStatement
  | create (run : Execution)
  | update (run : Execution)
  | append (runId : ExecutionId) (stream content : String) (now : DateTime)
  | purge (taskId : TaskId) (before : DateTime)
  | recover
  | saveTask (task : Task)
  | deleteTask (id : TaskId)

section Statements

variable (texts : Texts)

def LogStatement.execute : LogStatement → Statement
  | .create run => createRun texts run
  | .update run => fun db => some (updateRun texts run db)
  | .append runId stream content now => appendOutput texts runId stream content now
  | .purge taskId before => fun db => some (purgeExpiredRuns texts taskId before db)
  | .recover => fun db => some (recoverDanglingExecutions db)
  | .saveTask task => fun db =>
    match save texts (fun _ => false) db task with
    | (.ok (), db) => some db
    | (.error (), _) => none
  | .deleteTask id => fun db => some (db.deleteTask (TaskId.text id))

/-- What the statement does to the log. -/
def LogStatement.record : LogStatement → List LogEntry → List LogEntry
  | .create run, log => log ++ [⟨run, []⟩]
  | .update run, log => log.map fun e =>
    if e.run.id = run.id then { e with run := updatedRun run e.run } else e
  | .append runId stream content now, log => log.map fun e =>
    if e.run.id = runId then
      { e with outputs := e.outputs ++ [⟨stream, content, texts.dateTime.encode now⟩] }
    else e
  | .purge taskId before, log => log.filter fun e => !(decide (e.run.taskId = taskId) &&
    decide (e.run.startedAt < before) && decide (e.run.status ≠ .Running))
  | .recover, log => log.map fun e => { e with run := interruptedRun e.run }
  | .saveTask _, log => log
  | .deleteTask id, log => log.filter fun e => !decide (e.run.taskId = id)

end Statements

def findEntry (log : List LogEntry) (id : ExecutionId) : Option LogEntry :=
  log.find? fun e => decide (e.run.id = id)

/-! ## Outputs of a run -/

section Outputs

variable {texts : Texts} {db db' : Database}

/-- The ids of the outputs increase, as `AUTOINCREMENT` gives them. -/
def InIdOrder (db : Database) : Prop :=
  db.runOutputs.rows.Pairwise fun a b => a.id < b.id

/-- In that order `ORDER BY id ASC` changes nothing. -/
theorem InIdOrder.getOutputs_eq (h : InIdOrder db) (runId : ExecutionId) :
    getOutputs db runId =
      (db.runOutputs.rows.filter fun row => decide (row.runId = ExecutionId.text runId)).map
        outputRecord := by
  unfold getOutputs
  rw [List.mergeSort_of_pairwise]
  exact (h.filter _).imp fun hab => decide_eq_true hab.le

theorem getOutputs_congr (h : db'.runOutputs = db.runOutputs) (runId : ExecutionId) :
    getOutputs db' runId = getOutputs db runId := by
  rw [getOutputs, h]
  rfl

theorem mem_keys_iff_runStatus {k : String} :
    k ∈ db.taskRuns.rows.map TaskRunRow.id ↔ db.runStatus k ≠ none := by
  rw [Table.mem_keys, Option.isSome_iff_ne_none, Database.runStatus, Ne, Ne, Option.map_eq_none_iff]

theorem createRun_frame {run : Execution} (h : createRun texts run db = some db') :
    db'.runOutputs = db.runOutputs ∧
      ExecutionId.text run.id ∉ db.taskRuns.rows.map TaskRunRow.id := by
  refine ⟨?_, fun hmem => mem_keys_iff_runStatus.mp hmem (runStatus_create h "").1⟩
  unfold createRun Database.insertRun at h
  split at h
  · cases h
    rfl
  · cases h

/-- What is appended comes last. -/
theorem rows_appendOutput {runId : ExecutionId} {stream content : String} {now : DateTime}
    (h : appendOutput texts runId stream content now db = some db') :
    db'.runOutputs.rows = db.runOutputs.rows ++
        [⟨db.outputSeq + 1, ExecutionId.text runId, stream, content, texts.dateTime.encode now⟩] ∧
      db'.taskRuns = db.taskRuns := by
  unfold appendOutput Database.insertOutput at h
  split at h
  · rename_i runOutputs hinsert
    cases h
    exact ⟨Table.rows_insert (Table.insertChild_eq_some hinsert).2, rfl⟩
  · cases h

/-- Without an error of SQLite, an output is refused only for a run that is not stored. -/
theorem appendOutput_eq_none {runId : ExecutionId} {stream content : String} {now : DateTime}
    (h : appendOutput texts runId stream content now db = none) :
    db.runStatus (ExecutionId.text runId) = none := by
  by_contra hrun
  rw [← ne_eq, ← mem_keys_iff_runStatus] at hrun
  unfold appendOutput Database.insertOutput at h
  split at h
  · cases h
  · rename_i hinsert
    rw [Table.insertChild, if_pos hrun, Table.insert] at hinsert
    split_ifs at hinsert with hfree
    obtain ⟨row, hrow, hid⟩ := List.mem_map.mp hfree
    have hle := db.outputs_le row hrow
    rw [hid] at hle
    exact Nat.not_succ_le_self _ hle

theorem InIdOrder.append (h : InIdOrder db) {runId : ExecutionId} {stream content : String}
    {now : DateTime} (happend : appendOutput texts runId stream content now db = some db') :
    InIdOrder db' := by
  unfold InIdOrder
  rw [(rows_appendOutput happend).1, List.pairwise_append]
  refine ⟨h, List.pairwise_singleton _ _, fun row hrow last hlast => ?_⟩
  rw [List.mem_singleton.mp hlast]
  exact Nat.lt_succ_of_le (db.outputs_le row hrow)

theorem getOutputs_append (h : InIdOrder db) {runId : ExecutionId} {stream content : String}
    {now : DateTime} (happend : appendOutput texts runId stream content now db = some db')
    (id : ExecutionId) :
    getOutputs db' id =
      if ExecutionId.text runId = ExecutionId.text id then
        getOutputs db id ++ [⟨stream, content, texts.dateTime.encode now⟩]
      else getOutputs db id := by
  rw [(h.append happend).getOutputs_eq, h.getOutputs_eq, (rows_appendOutput happend).1,
    List.filter_append, List.map_append]
  split_ifs with htext
  · simp [htext, outputRecord]
  · simp [htext]

/-- A cascade keeps the outputs of the runs that are kept. -/
theorem getOutputs_cascade (h : InIdOrder db)
    (hrows : db'.runOutputs = db.runOutputs.cascade RunOutputRow.runId db'.taskRuns)
    {id : ExecutionId} (hid : ExecutionId.text id ∈ db'.taskRuns.rows.map TaskRunRow.id) :
    InIdOrder db' ∧ getOutputs db' id = getOutputs db id := by
  have horder : InIdOrder db' := by
    unfold InIdOrder
    rw [hrows]
    exact h.filter _
  refine ⟨horder, ?_⟩
  rw [horder.getOutputs_eq, h.getOutputs_eq, hrows]
  show List.map _ (List.filter _ (List.filter _ _)) = _
  rw [List.filter_filter]
  refine congrArg (List.map _) (List.filter_congr fun row _ => ?_)
  by_cases htext : row.runId = ExecutionId.text id
  · dsimp only
    rw [htext, decide_eq_false (not_not_intro hid), decide_eq_true rfl]
    rfl
  · rw [decide_eq_false htext, Bool.false_and]

/-- Outputs belong to stored runs. -/
theorem getOutputs_eq_nil {id : ExecutionId}
    (hid : ExecutionId.text id ∉ db.taskRuns.rows.map TaskRunRow.id) : getOutputs db id = [] := by
  unfold getOutputs
  rw [List.map_eq_nil_iff, ← List.length_eq_zero_iff, List.length_mergeSort,
    List.length_eq_zero_iff, List.filter_eq_nil_iff]
  intro row hrow htext
  apply hid
  rw [← of_decide_eq_true htext]
  exact db.runOutputs_run row hrow

end Outputs

/-! ## The database and the log -/

/-- `to_rfc3339` writes the year with four digits. -/
structure FourDigitYear (t : DateTime) : Prop where
  nonneg : 0 ≤ year t
  le : year t ≤ 9999

/-- The rows of `task_runs` and `run_outputs` are those of the log. -/
structure Records (texts : Texts) (db : Database) (log : List LogEntry) : Prop where
  stores : Stores texts db (log.map LogEntry.run)
  year : ∀ e ∈ log, FourDigitYear e.run.startedAt
  instants : ∀ e ∈ log, InstantsRoundTrip texts e.run
  inIdOrder : InIdOrder db
  outputs : ∀ e ∈ log, getOutputs db e.run.id = e.outputs

/-- What the statement writes are values of the source, and its instants have four-digit years. -/
def LogStatement.Writes (texts : Texts) : LogStatement → Prop
  | .create run => InRange run ∧ InstantsRoundTrip texts run ∧ FourDigitYear run.startedAt
  | .update run => InRange run ∧ InstantsRoundTrip texts run
  | .append runId _ _ _ => runId.uuid.InRange
  | .purge taskId before => taskId.uuid.InRange ∧ year before ≤ 9999
  | .recover => True
  | .saveTask _ => True
  | .deleteTask id => id.uuid.InRange

section Records

variable {texts : Texts} {db db' : Database} {log : List LogEntry}

theorem records_empty (texts : Texts) : Records texts .empty [] where
  stores := stores_empty texts
  year _ he := absurd he List.not_mem_nil
  instants _ he := absurd he List.not_mem_nil
  inIdOrder := List.Pairwise.nil
  outputs _ he := absurd he List.not_mem_nil

theorem Records.mem_keys (h : Records texts db log) {e : LogEntry} (he : e ∈ log) :
    ExecutionId.text e.run.id ∈ db.taskRuns.rows.map TaskRunRow.id := by
  rw [h.stores.rows]
  exact List.mem_map.mpr ⟨_, List.mem_map_of_mem (List.mem_map_of_mem he), rfl⟩

theorem Records.inRange (h : Records texts db log) {e : LogEntry} (he : e ∈ log) :
    InRange e.run := h.stores.inRange e.run (List.mem_map_of_mem he)

/-- Statements that change the runs, each by itself and not its id. -/
theorem Records.map_run (h : Records texts db log) {f : Execution → Execution}
    (hid : ∀ run, (f run).id = run.id) (hstart : ∀ run, (f run).startedAt = run.startedAt)
    (hinstants : ∀ e ∈ log, InstantsRoundTrip texts (f e.run))
    (hstores : Stores texts db' ((log.map LogEntry.run).map f))
    (houtputs : db'.runOutputs = db.runOutputs) :
    Records texts db' (log.map fun e => { e with run := f e.run }) where
  stores := by
    rw [List.map_map] at hstores ⊢
    exact hstores
  year := by
    rw [List.forall_mem_map]
    intro e he
    dsimp only
    rw [hstart]
    exact h.year e he
  instants := by
    rw [List.forall_mem_map]
    exact hinstants
  inIdOrder := by
    unfold InIdOrder
    rw [houtputs]
    exact h.inIdOrder
  outputs := by
    rw [List.forall_mem_map]
    intro e he
    dsimp only
    rw [hid, getOutputs_congr houtputs]
    exact h.outputs e he

/-- Statements that delete runs. -/
theorem Records.filter (h : Records texts db log) {p : Execution → Bool}
    (hstores : Stores texts db' ((log.map LogEntry.run).filter p))
    (houtputs : db'.runOutputs = db.runOutputs.cascade RunOutputRow.runId db'.taskRuns) :
    Records texts db' (log.filter fun e => p e.run) := by
  have hrows :
      (log.filter fun e => p e.run).map LogEntry.run = (log.map LogEntry.run).filter p := by
    rw [List.filter_map]
    rfl
  have hkeys : ∀ e ∈ log.filter fun e => p e.run,
      ExecutionId.text e.run.id ∈ db'.taskRuns.rows.map TaskRunRow.id := by
    intro e he
    rw [hstores.rows, ← hrows]
    exact List.mem_map.mpr ⟨_, List.mem_map_of_mem (List.mem_map_of_mem he), rfl⟩
  refine ⟨by rwa [hrows], fun e he => h.year e (List.mem_of_mem_filter he),
    fun e he => h.instants e (List.mem_of_mem_filter he), ?_, fun e he => ?_⟩
  · unfold InIdOrder
    rw [houtputs]
    exact h.inIdOrder.filter _
  · rw [(getOutputs_cascade h.inIdOrder houtputs (hkeys e he)).2]
    exact h.outputs e (List.mem_of_mem_filter he)

theorem Records.create (h : Records texts db log) {run : Execution}
    (hwrites : (LogStatement.create run).Writes texts)
    (hcreate : createRun texts run db = some db') : Records texts db' (log ++ [⟨run, []⟩]) := by
  obtain ⟨hrange, hinstants, hyear⟩ := hwrites
  obtain ⟨houtputs, hnew⟩ := createRun_frame hcreate
  have hforall {P : LogEntry → Prop} (hlog : ∀ e ∈ log, P e) (hlast : P ⟨run, []⟩) :
      ∀ e ∈ log ++ [⟨run, []⟩], P e := by
    intro e he
    rcases List.mem_append.mp he with he | he
    · exact hlog e he
    · rwa [List.mem_singleton.mp he]
  refine ⟨?_, hforall h.year hyear, hforall h.instants hinstants, ?_, hforall (fun e he => ?_) ?_⟩
  · rw [List.map_append]
    exact h.stores.create hrange hcreate
  · unfold InIdOrder
    rw [houtputs]
    exact h.inIdOrder
  · rw [getOutputs_congr houtputs]
    exact h.outputs e he
  · show getOutputs db' run.id = []
    rw [getOutputs_congr houtputs]
    exact getOutputs_eq_nil hnew

theorem Records.update (h : Records texts db log) {run : Execution}
    (hwrites : (LogStatement.update run).Writes texts) :
    Records texts (updateRun texts run db) ((LogStatement.update run).record texts log) := by
  have hrecord : (LogStatement.update run).record texts log = log.map fun e =>
      { e with run := if e.run.id = run.id then updatedRun run e.run else e.run } :=
    List.map_congr_left fun e _ => by split_ifs <;> rfl
  rw [hrecord]
  refine h.map_run (f := fun old => if old.id = run.id then updatedRun run old else old)
    (fun old => ?_) (fun old => ?_) (fun e he => ?_) (h.stores.update hwrites.1) rfl
  · split_ifs <;> rfl
  · split_ifs <;> rfl
  · have hold := h.instants e he
    split_ifs
    · exact ⟨hold.scheduledAt, hold.startedAt, hwrites.2.finishedAt⟩
    · exact hold

theorem Records.recover (h : Records texts db log) :
    Records texts (recoverDanglingExecutions db) (LogStatement.recover.record texts log) := by
  have hid (run : Execution) : (interruptedRun run).id = run.id := by
    unfold interruptedRun
    split_ifs <;> rfl
  have hstart (run : Execution) : (interruptedRun run).startedAt = run.startedAt := by
    unfold interruptedRun
    split_ifs <;> rfl
  refine h.map_run hid hstart (fun e he => ?_) h.stores.recover rfl
  have hold := h.instants e he
  unfold interruptedRun
  split_ifs
  · exact ⟨hold.scheduledAt, hold.startedAt, hold.finishedAt⟩
  · exact hold

theorem Records.append (h : Records texts db log) {runId : ExecutionId} (hid : runId.uuid.InRange)
    {stream content : String} {now : DateTime}
    (happend : appendOutput texts runId stream content now db = some db') :
    Records texts db' ((LogStatement.append runId stream content now).record texts log) := by
  have hruns : ((LogStatement.append runId stream content now).record texts log).map LogEntry.run =
      log.map LogEntry.run := by
    rw [LogStatement.record, List.map_map]
    exact List.map_congr_left fun e _ => by rw [Function.comp_apply]; split_ifs <;> rfl
  have htable := (rows_appendOutput happend).2
  have hforall (P : Execution → Prop) (hlog : ∀ e ∈ log, P e.run) :
      ∀ e ∈ (LogStatement.append runId stream content now).record texts log, P e.run := by
    rw [LogStatement.record, List.forall_mem_map]
    intro e he
    split_ifs <;> exact hlog e he
  refine ⟨?_, hforall (fun run => FourDigitYear run.startedAt) h.year,
    hforall (InstantsRoundTrip texts) h.instants, h.inIdOrder.append happend, ?_⟩
  · rw [hruns]
    exact ⟨by rw [htable]; exact h.stores.rows, h.stores.inRange⟩
  · rw [LogStatement.record, List.forall_mem_map]
    intro e he
    have htext : ExecutionId.text runId = ExecutionId.text e.run.id ↔ e.run.id = runId :=
      ⟨fun htext => (ExecutionId.text_injective hid (h.inRange he).id htext).symm,
        fun heq => by rw [heq]⟩
    have hold := h.outputs e he
    by_cases heq : e.run.id = runId
    · rw [if_pos heq]
      dsimp only
      rw [getOutputs_append h.inIdOrder happend, if_pos (htext.mpr heq), hold]
    · rw [if_neg heq, getOutputs_append h.inIdOrder happend, if_neg (mt htext.mp heq), hold]

theorem Records.purge (h : Records texts db log)
    (htexts : ∀ t, texts.dateTime.encode t = toRfc3339 t) {taskId : TaskId} {before : DateTime}
    (hwrites : (LogStatement.purge taskId before).Writes texts) :
    Records texts (purgeExpiredRuns texts taskId before db)
      ((LogStatement.purge taskId before).record texts log) := by
  have hyear : ∀ run ∈ log.map LogEntry.run,
      0 ≤ Chrono.year run.startedAt ∧ Chrono.year run.startedAt ≤ 9999 := by
    rw [List.forall_mem_map]
    exact fun e he => ⟨(h.year e he).nonneg, (h.year e he).le⟩
  exact h.filter (h.stores.purge htexts hyear hwrites.1 hwrites.2) rfl

/-- Every statement does to the log what it says. -/
theorem Records.execute (h : Records texts db log)
    (htexts : ∀ t, texts.dateTime.encode t = toRfc3339 t) {statement : LogStatement}
    (hwrites : statement.Writes texts) (hok : statement.execute texts db = some db') :
    Records texts db' (statement.record texts log) := by
  cases statement with
  | create run => exact h.create hwrites hok
  | update run =>
    cases hok
    exact h.update hwrites
  | append runId stream content now => exact h.append hwrites hok
  | purge taskId before =>
    cases hok
    exact h.purge htexts hwrites
  | recover =>
    cases hok
    exact h.recover
  | saveTask task =>
    unfold LogStatement.execute at hok
    dsimp only at hok
    cases hsave : save texts (fun _ => false) db task with
    | mk result saved =>
      rw [hsave] at hok
      cases result with
      | error => cases hok
      | ok =>
        cases hok
        have hsaved := saved_of_executeAll (transaction_ok hsave)
        refine ⟨⟨by rw [hsaved.taskRuns]; exact h.stores.rows, h.stores.inRange⟩, h.year,
          h.instants, ?_, fun e he => ?_⟩
        · unfold InIdOrder
          rw [hsaved.runOutputs]
          exact h.inIdOrder
        · rw [getOutputs_congr hsaved.runOutputs]
          exact h.outputs e he
  | deleteTask id =>
    cases hok
    exact h.filter (h.stores.deleteTask hwrites) rfl

end Records

/-! ## The answers -/

section Answers

variable {texts : Texts} {reader : RunReader} {db : Database} {log : List LogEntry}

theorem find?_key_entry (id : ExecutionId) {e : LogEntry} (h : findEntry log id = some e) :
    e ∈ log ∧ e.run.id = id :=
  ⟨List.mem_of_find?_eq_some h, of_decide_eq_true (List.find?_some h :)⟩

/-- The row of an id is that of its entry. -/
theorem Records.find (h : Records texts db log) {id : ExecutionId} (hid : id.uuid.InRange) :
    db.taskRuns.find (ExecutionId.text id) =
      (findEntry log id).map fun e => TaskRunRow.ofExecution texts e.run := by
  cases hfind : findEntry log id with
  | some e =>
    obtain ⟨he, rfl⟩ := find?_key_entry id hfind
    rw [Option.map_some, Table.find_eq_some, h.stores.rows]
    exact ⟨List.mem_map_of_mem (List.mem_map_of_mem he), rfl⟩
  | none =>
    rw [Option.map_none, Table.find_eq_none, h.stores.rows, List.map_map, List.forall_mem_map]
    intro e he htext
    refine absurd (decide_eq_true ?_) (List.find?_eq_none.mp hfind e he)
    exact (h.stores.id_iff (List.mem_map_of_mem he) hid).mp htext

theorem Records.findRunById (h : Records texts db log) (hreader : reader.RoundTrips)
    {id : ExecutionId} (hid : id.uuid.InRange) (now : DateTime) :
    findRunById texts reader now db id = .ok ((findEntry log id).map LogEntry.run) := by
  rw [Agent.findRunById, h.find hid]
  cases hfind : findEntry log id with
  | none => rfl
  | some e =>
    obtain ⟨he, -⟩ := find?_key_entry id hfind
    show Except.map some (mapRowToExecution texts reader now (.ofExecution texts e.run)) = _
    rw [mapRowToExecution_ofExecution hreader (h.inRange he) (h.instants e he)]
    rfl

theorem Records.getOutputs (h : Records texts db log) {id : ExecutionId} (hid : id.uuid.InRange) :
    getOutputs db id = ((findEntry log id).map LogEntry.outputs).getD [] := by
  have hfind := h.find hid
  cases hentry : findEntry log id with
  | some e =>
    obtain ⟨he, rfl⟩ := find?_key_entry id hentry
    exact h.outputs e he
  | none =>
    rw [hentry, Option.map_none] at hfind
    refine getOutputs_eq_nil ?_
    rw [Table.mem_keys, hfind]
    exact Bool.false_ne_true

/-- `found` are the `limit` runs that started last, the latest first. -/
def IsRecent (limit : ℕ) (runs found : List Execution) : Prop :=
  ∃ sorted : List Execution, sorted.Perm runs ∧
    (sorted.Pairwise fun a b => b.startedAt ≤ a.startedAt) ∧ found = sorted.take limit

theorem mapM_mapRowToExecution (hreader : reader.RoundTrips) (now : TaskRunRow → DateTime)
    {runs : List Execution} (hrange : ∀ run ∈ runs, InRange run)
    (hinstants : ∀ run ∈ runs, InstantsRoundTrip texts run) :
    (runs.map (TaskRunRow.ofExecution texts)).mapM
      (fun row => mapRowToExecution texts reader (now row) row) = .ok runs := by
  induction runs with
  | nil => rfl
  | cons run runs ih =>
    rw [List.forall_mem_cons] at hrange hinstants
    rw [List.map_cons, List.mapM_cons, ih hrange.2 hinstants.2,
      mapRowToExecution_ofExecution hreader hrange.1 hinstants.1]
    rfl

theorem Records.findRecentRuns (h : Records texts db log)
    (htexts : ∀ t, texts.dateTime.encode t = toRfc3339 t) (hreader : reader.RoundTrips)
    {order : List TaskRunRow → List TaskRunRow} (horder : OrdersByStart order)
    (now : TaskRunRow → DateTime) (limit : ℕ) :
    ∃ found, findRecentRuns texts reader order now db limit = .ok found ∧
      IsRecent limit (log.map LogEntry.run) found := by
  have hperm := horder.perm db.taskRuns.rows
  rw [h.stores.rows] at hperm
  obtain ⟨sorted, hsorted, hruns⟩ := (congrFun (congrFun
    (List.eq_map_comp_perm (TaskRunRow.ofExecution texts)) _) _).mpr hperm
  rw [← h.stores.rows] at hsorted
  have hentry : ∀ run ∈ sorted, ∃ e ∈ log, e.run = run :=
    fun run hrun => List.mem_map.mp (hruns.subset hrun)
  have hmem : ∀ run ∈ sorted.take limit, run ∈ sorted := fun run hrun => List.mem_of_mem_take hrun
  refine ⟨sorted.take limit, ?_, sorted, hruns, ?_, rfl⟩
  · rw [Agent.findRecentRuns, hsorted, ← List.map_take]
    refine mapM_mapRowToExecution hreader now (fun run hrun => ?_) fun run hrun => ?_
    · obtain ⟨e, he, rfl⟩ := hentry run (hmem run hrun)
      exact h.inRange he
    · obtain ⟨e, he, rfl⟩ := hentry run (hmem run hrun)
      exact h.instants e he
  · have hdesc := horder.desc db.taskRuns.rows
    rw [hsorted, List.pairwise_map] at hdesc
    refine hdesc.imp_of_mem fun {a b} ha hb hle => ?_
    obtain ⟨e, he, rfl⟩ := hentry a ha
    obtain ⟨e', he', rfl⟩ := hentry b hb
    -- The texts are in the order of the instants.
    by_contra hlt
    have hyear := h.year e he
    have hyear' := h.year e' he'
    refine absurd ((toRfc3339_lt_iff ⟨hyear.nonneg, hyear.le⟩ hyear'.le).mpr (not_le.mp hlt)) ?_
    rw [← htexts, ← htexts]
    exact String.not_lt.mpr hle

end Answers

/-! ## Runs of the repository -/

/-- The statements that `exec_repo` and `task_repo` execute, each with whether SQLite reports
    success; the output is what the caller gets. -/
def runRepository (texts : Texts) : Machine Database (LogStatement × Bool) Bool where
  init := .empty
  step db a :=
    match if a.2 then a.1.execute texts db else none with
    | some db => some (db, [true])
    | none => some (db, [false])

/-- What the successful statements of a trace record, one after the other. -/
def recorded (texts : Texts) (tr : List ((LogStatement × Bool) × List Bool)) : List LogEntry :=
  tr.foldl (fun log step => if step.2 = [true] then step.1.1.record texts log else log) []

theorem records_run {texts : Texts} (htexts : ∀ t, texts.dateTime.encode t = toRfc3339 t)
    {tr : List ((LogStatement × Bool) × List Bool)} {db : Database}
    (hrun : (runRepository texts).Run (fun _ a => a.1.Writes texts) .empty tr db) :
    Records texts db (recorded texts tr) := by
  refine hrun.history (I := fun tr db => Records texts db (recorded texts tr))
    (records_empty texts) ?_
  intro tr db a db' o _ h hwrites hst
  have hrecorded : recorded texts (tr ++ [(a, o)]) =
      if o = [true] then a.1.record texts (recorded texts tr) else recorded texts tr :=
    List.foldl_append
  rw [hrecorded]
  simp only [runRepository] at hst
  split at hst
  · rename_i db₁ hexecute
    cases hst
    split_ifs at hexecute
    exact h.execute htexts hwrites hexecute
  · cases hst
    exact h

/-! ### A run with one chunk of output -/

/-- A run is stored and prints a line; SQLite refuses the last statement. -/
def printStatements : List (LogStatement × Bool) :=
  [(.saveTask twoActions, true), (.create (succeededRun 1 (year10000 - 1)), true),
    (.append ⟨1⟩ "stdout" "done" (year10000 - 1), true), (.recover, false)]

theorem printStatements_write : ∀ a ∈ printStatements, a.1.Writes yearTexts := by
  rw [printStatements, List.forall_mem_cons, List.forall_mem_cons, List.forall_mem_cons,
    List.forall_mem_singleton]
  exact ⟨trivial, ⟨inRange_succeededRun (by decide) _,
    instantsRoundTrip_succeededRun (by decide +kernel), by decide +kernel, by decide +kernel⟩,
    ⟨by decide⟩, trivial⟩

/-- What each statement reports. -/
def printReports : List (List Bool) := [[true], [true], [true], [false]]

theorem printReports_exec :
    ((runRepository yearTexts).exec Machine.anyStep .empty printStatements).map
      (fun r => r.1.map Prod.snd) = some printReports := by
  decide +kernel

theorem printed_run : ∃ db, (runRepository yearTexts).Run (fun _ a => a.1.Writes yearTexts) .empty
    (printStatements.zip printReports) db := by
  obtain ⟨⟨tr, db⟩, hexec, hreports⟩ := Option.map_eq_some_iff.mp printReports_exec
  have hactions := Machine.exec_actions hexec
  rw [← List.zip_of_prod hactions hreports]
  have hwrites : ∀ a ∈ tr.map Prod.fst, a.1.Writes yearTexts := by
    rw [hactions]
    exact printStatements_write
  exact ⟨db, ((Machine.exec_run hexec).restrict hwrites).mono fun _ _ hok => hok.2⟩

/-- After any statements, a run is found as it was last written, with all its output in the order
    in which it was appended. -/
theorem repository_keeps_log {texts : Texts} (htexts : ∀ t, texts.dateTime.encode t = toRfc3339 t)
    {reader : RunReader} (hreader : reader.RoundTrips)
    {tr : List ((LogStatement × Bool) × List Bool)} {db : Database}
    (hrun : (runRepository texts).Run (fun _ a => a.1.Writes texts) .empty tr db)
    {id : ExecutionId} (hid : id.uuid.InRange) (now : DateTime) :
    findRunById texts reader now db id =
      .ok ((findEntry (recorded texts tr) id).map LogEntry.run) ∧
    getOutputs db id = ((findEntry (recorded texts tr) id).map LogEntry.outputs).getD [] := by
  have h := records_run htexts hrun
  exact ⟨h.findRunById hreader hid now, h.getOutputs hid⟩

theorem repository_keeps_log_printed : ∃ db,
    findRunById yearTexts displayReader 0 db ⟨1⟩ = .ok (some (succeededRun 1 (year10000 - 1))) ∧
    getOutputs db ⟨1⟩ = [⟨"stdout", "done", toRfc3339 (year10000 - 1)⟩] := by
  obtain ⟨db, hrun⟩ := printed_run
  have hid : (⟨1⟩ : ExecutionId).uuid.InRange := ⟨by decide⟩
  exact ⟨db, repository_keeps_log (fun _ => rfl) displayReader_roundTrips hrun hid 0⟩

/-- After any statements, the recent runs are those of the log that started last, whatever SQLite
    does with runs that started at the same time. -/
theorem recent_runs_of_log {texts : Texts} (htexts : ∀ t, texts.dateTime.encode t = toRfc3339 t)
    {reader : RunReader} (hreader : reader.RoundTrips)
    {tr : List ((LogStatement × Bool) × List Bool)} {db : Database}
    (hrun : (runRepository texts).Run (fun _ a => a.1.Writes texts) .empty tr db)
    {order : List TaskRunRow → List TaskRunRow} (horder : OrdersByStart order)
    (now : TaskRunRow → DateTime) (limit : ℕ) :
    ∃ found, findRecentRuns texts reader order now db limit = .ok found ∧
      IsRecent limit ((recorded texts tr).map LogEntry.run) found :=
  (records_run htexts hrun).findRecentRuns htexts hreader horder now limit

theorem recent_runs_of_log_printed : ∃ db,
    findRecentRuns yearTexts displayReader latestFirst (fun _ => 0) db 50 =
      .ok [succeededRun 1 (year10000 - 1)] := by
  obtain ⟨db, hrun⟩ := printed_run
  obtain ⟨found, hfound, sorted, hperm, -, rfl⟩ :=
    recent_runs_of_log (fun _ => rfl) displayReader_roundTrips hrun latestFirst_ordersByStart
      (fun _ => 0) 50
  refine ⟨db, ?_⟩
  rw [hfound, List.perm_singleton.mp hperm]
  rfl

end EasyJob.Agent
