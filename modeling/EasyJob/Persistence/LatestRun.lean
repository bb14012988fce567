import EasyJob.Chrono.Rfc3339
import EasyJob.Persistence.StoredRuns
import Mathlib.Data.Finset.Max
import Mathlib.Data.List.Perm.Basic
import Mathlib.Data.Prod.Lex

/-!
# The latest run of each task

Model of `find_latest_run_per_task` and `map_row_to_execution`
(`crates/persistence/src/execution_repo.rs` lines 171–253). The window query numbers
the runs of a task by `started_at` and `id`, both as texts, and the rows with number 1
are collected in a map.

* `mapRowToExecution_ofExecution`: a stored run is read as it was.
* `exists_isLatest`, `IsLatest.unique`: each task with runs has one latest run.
* `findLatestRunPerTask_lookup`: the map holds the latest run of every listed task that
  has one.
-/

namespace EasyJob.Persistence.Sqlite

open EasyJob.Chrono EasyJob.Domain

/-! ## Reading a run -/

inductive RunError
  /-- `serde_json` rejects the status. -/
  | json
  /-- `Error::Database`: an id does not parse, or the statement has too many parameters. -/
  | database
  deriving DecidableEq, Repr

/-- `Uuid::parse_str`, and `serde_json::from_str` for a status. -/
structure RunReader where
  parseUuid : String → Option Uuid
  parseStatus : String → Option ExecutionStatus

/-- What was written is read as it was. -/
structure RunReader.RoundTrips (reader : RunReader) : Prop where
  uuid : ∀ u : Uuid, u.InRange → reader.parseUuid (displayUuid u) = some u
  status : ∀ status, reader.parseStatus (statusText status) = some status

def okOr {α : Type} (e : RunError) : Option α → Except RunError α
  | some x => .ok x
  | none => .error e

/-- The cast `d as u64` of an `i64`, which wraps. -/
def asU64 (d : ℤ) : ℕ := (d % 2 ^ 64).toNat

theorem asU64_asI64 {d : ℕ} (h : d < 2 ^ 64) : asU64 (asI64 d) = d := by
  unfold asU64 asI64
  dsimp only
  split_ifs <;> omega

section Find

variable (texts : Texts) (reader : RunReader)

/-- Model of `map_row_to_execution`. `now` is what `Utc::now` gives for an instant that cannot be
    read. -/
def mapRowToExecution (now : DateTime) (row : TaskRunRow) : Except RunError Execution := do
  let status ← okOr .json (reader.parseStatus row.status)
  let id ← okOr .database (reader.parseUuid row.id)
  let taskId ← okOr .database (reader.parseUuid row.taskId)
  return {
    id := ⟨id⟩
    taskId := ⟨taskId⟩
    triggerId := row.triggerId.bind fun s => (reader.parseUuid s).map TriggerId.mk
    status := status
    scheduledAt := row.scheduledAt.bind texts.dateTime.decode
    startedAt := (texts.dateTime.decode row.startedAt).getD now
    finishedAt := row.finishedAt.bind texts.dateTime.decode
    durationMs := row.durationMs.map asU64
    exitCode := row.exitCode
    errorMessage := row.errorMessage }

/-! ## The query -/

/-- `ORDER BY started_at DESC, id DESC`. -/
def comesBefore (a b : TaskRunRow) : Bool :=
  decide (b.startedAt < a.startedAt) ||
    decide (a.startedAt = b.startedAt) && decide (b.id < a.id)

/-- `ROW_NUMBER() OVER (PARTITION BY task_id ORDER BY started_at DESC, id DESC)`. -/
def rowNumber (rows : List TaskRunRow) (row : TaskRunRow) : ℕ :=
  (rows.filter (·.taskId = row.taskId)).countP (comesBefore · row) + 1

/-- The rows that the query selects. -/
def latestRows (db : Database) (taskIds : List String) : List TaskRunRow :=
  let rows := db.taskRuns.rows.filter (·.taskId ∈ taskIds)
  rows.filter (rowNumber rows · = 1)

/-- The loop over the rows (lines 216–220). -/
def insertRuns (now : TaskRunRow → DateTime) :
    List TaskRunRow → HashMap TaskId Execution → Except RunError (HashMap TaskId Execution)
  | [], latest => .ok latest
  | row :: rows, latest => do
    let exec ← mapRowToExecution texts reader (now row) row
    insertRuns now rows (latest.insert exec.taskId exec)

/-- Model of `find_latest_run_per_task`. A statement has at most `maxVariables` parameters, and
    `fetch` puts the selected rows in the order in which they come. -/
def findLatestRunPerTask (maxVariables : ℕ) (fetch : List TaskRunRow → List TaskRunRow)
    (now : TaskRunRow → DateTime) (db : Database) (taskIds : List TaskId) :
    Except RunError (HashMap TaskId Execution) :=
  if taskIds.isEmpty then .ok ∅
  else if maxVariables < taskIds.length then .error .database
  else insertRuns texts reader now (fetch (latestRows db (taskIds.map TaskId.text))) ∅

end Find

/-! ## The latest run -/

/-- `run` is the run of the task that started last; of those that started then, the one with the
    greatest id. -/
structure IsLatest (runs : List Execution) (id : TaskId) (run : Execution) : Prop where
  mem : run ∈ runs
  taskId : run.taskId = id
  greatest : ∀ other ∈ runs, other.taskId = id → other.startedAt < run.startedAt ∨
    other.startedAt = run.startedAt ∧ other.id.uuid ≤ run.id.uuid

theorem exists_isLatest {runs : List Execution} {id : TaskId} (h : ∃ run ∈ runs, run.taskId = id) :
    ∃ run, IsLatest runs id run := by
  obtain ⟨run, hrun, hid⟩ := h
  obtain ⟨latest, hlatest, hmax⟩ := Finset.exists_max_image
    (runs.filter (·.taskId = id)).toFinset
    (fun run : Execution => toLex ((run.startedAt : ℤ), (run.id.uuid : ℕ)))
    ⟨run, by simpa using ⟨hrun, hid⟩⟩
  simp only [List.mem_toFinset, List.mem_filter, decide_eq_true_eq] at hlatest hmax
  refine ⟨latest, hlatest.1, hlatest.2, fun other hother hid => ?_⟩
  exact Prod.Lex.toLex_le_toLex.mp (hmax other ⟨hother, hid⟩)

theorem IsLatest.unique {runs : List Execution} (hnodup : (runs.map Execution.id).Nodup)
    {id : TaskId} {a b : Execution} (ha : IsLatest runs id a) (hb : IsLatest runs id b) :
    a = b := by
  apply List.inj_on_of_nodup_map hnodup ha.mem hb.mem
  have hid : a.id.uuid = b.id.uuid := by
    rcases hb.greatest a ha.mem ha.taskId with hlt | ⟨hstarted, hab⟩
    · rcases ha.greatest b hb.mem hb.taskId with hlt' | ⟨hstarted', -⟩
      · exact absurd hlt' (lt_asymm hlt)
      · exact absurd hstarted' (ne_of_gt hlt)
    · rcases ha.greatest b hb.mem hb.taskId with hlt' | ⟨-, hba⟩
      · exact absurd hstarted (ne_of_gt hlt')
      · exact le_antisymm hab hba
  exact congrArg ExecutionId.mk hid

/-! ## What the query finds -/

/-- The instants of a run are read as they were written. -/
structure InstantsRoundTrip (texts : Texts) (run : Execution) : Prop where
  scheduledAt : ∀ t ∈ run.scheduledAt, texts.dateTime.RoundTrips t
  startedAt : texts.dateTime.RoundTrips run.startedAt
  finishedAt : ∀ t ∈ run.finishedAt, texts.dateTime.RoundTrips t

section Find

variable {texts : Texts} {reader : RunReader} {db : Database} {runs : List Execution}
  {run other : Execution}

theorem bind_encode {t : Option DateTime} (h : ∀ x ∈ t, texts.dateTime.RoundTrips x) :
    (t.map texts.dateTime.encode).bind texts.dateTime.decode = t := by
  cases t with
  | none => rfl
  | some x => exact h x rfl

/-- A stored run is read as it was. -/
theorem mapRowToExecution_ofExecution (hreader : reader.RoundTrips) (hrun : InRange run)
    (hround : InstantsRoundTrip texts run) (now : DateTime) :
    mapRowToExecution texts reader now (TaskRunRow.ofExecution texts run) = .ok run := by
  have hid : reader.parseUuid (ExecutionId.text run.id) = some run.id.uuid := hreader.uuid _ hrun.id
  have htask : reader.parseUuid (TaskId.text run.taskId) = some run.taskId.uuid :=
    hreader.uuid _ hrun.taskId
  have htrigger : (run.triggerId.map fun id => displayUuid id.uuid).bind
      (fun s => (reader.parseUuid s).map TriggerId.mk) = run.triggerId := by
    cases htriggerId : run.triggerId with
    | none => rfl
    | some id =>
      have hparse := hreader.uuid id.uuid (hrun.triggerId id htriggerId)
      simp [hparse]
  have hduration : (run.durationMs.map asI64).map asU64 = run.durationMs := by
    cases hdurationMs : run.durationMs with
    | none => rfl
    | some d => exact congrArg some (asU64_asI64 (hrun.durationMs d hdurationMs))
  have hstarted : texts.dateTime.decode (texts.dateTime.encode run.startedAt) =
      some run.startedAt := hround.startedAt
  unfold mapRowToExecution TaskRunRow.ofExecution
  simp only [hreader.status, hid, htask, htrigger, bind_encode hround.scheduledAt, hstarted,
    bind_encode hround.finishedAt, hduration, okOr]
  rfl

/-- What is needed to compare the texts of the runs. -/
structure Comparable (texts : Texts) (runs : List Execution) : Prop where
  encode : ∀ t, texts.dateTime.encode t = toRfc3339 t
  year : ∀ run ∈ runs, 0 ≤ year run.startedAt ∧ year run.startedAt ≤ 9999

/-- Rows are compared as their runs. -/
theorem comesBefore_ofExecution (h : Stores texts db runs) (hcomp : Comparable texts runs)
    (hrun : run ∈ runs) (hother : other ∈ runs) :
    comesBefore (TaskRunRow.ofExecution texts other) (TaskRunRow.ofExecution texts run) = false ↔
      other.startedAt < run.startedAt ∨
        other.startedAt = run.startedAt ∧ other.id.uuid ≤ run.id.uuid := by
  have hyear := hcomp.year run hrun
  have hyear' := hcomp.year other hother
  have hlt : (TaskRunRow.ofExecution texts run).startedAt <
      (TaskRunRow.ofExecution texts other).startedAt ↔ run.startedAt < other.startedAt := by
    have hlt := toRfc3339_lt_iff hyear hyear'.2
    rwa [← hcomp.encode, ← hcomp.encode] at hlt
  have heq : (TaskRunRow.ofExecution texts other).startedAt =
      (TaskRunRow.ofExecution texts run).startedAt ↔ other.startedAt = run.startedAt := by
    refine ⟨fun htext => toRfc3339_injective hyear' hyear ?_, congrArg texts.dateTime.encode⟩
    rwa [← hcomp.encode, ← hcomp.encode]
  have hid : (TaskRunRow.ofExecution texts run).id < (TaskRunRow.ofExecution texts other).id ↔
      run.id.uuid < other.id.uuid :=
    displayUuid_lt_iff (h.inRange run hrun).id (h.inRange other hother).id
  rw [comesBefore, Bool.or_eq_false_iff, Bool.and_eq_false_iff, decide_eq_false_iff_not,
    decide_eq_false_iff_not, decide_eq_false_iff_not, hlt, heq, hid, not_lt, not_lt]
  constructor
  · rintro ⟨hle, hne | hid⟩
    · exact .inl (lt_of_le_of_ne hle hne)
    · rcases lt_or_eq_of_le hle with hlt | heq
      · exact .inl hlt
      · exact .inr ⟨heq, hid⟩
  · rintro (hlt | ⟨heq, hid⟩)
    · exact ⟨hlt.le, .inl (ne_of_lt hlt)⟩
    · exact ⟨heq.le, .inr hid⟩

theorem rowNumber_eq_one_iff {rows : List TaskRunRow} {row : TaskRunRow} :
    rowNumber rows row = 1 ↔
      ∀ other ∈ rows, other.taskId = row.taskId → comesBefore other row = false := by
  rw [rowNumber, Nat.add_eq_right, List.countP_eq_zero]
  simp only [List.mem_filter, decide_eq_true_eq, Bool.not_eq_true, and_imp]

theorem Stores.eq_of_row (h : Stores texts db runs) (hrun : run ∈ runs) (hother : other ∈ runs)
    (hrow : TaskRunRow.ofExecution texts run = TaskRunRow.ofExecution texts other) :
    run = other := by
  have hid := congrArg TaskRunRow.id hrow
  rw [TaskRunRow.ofExecution_id texts other] at hid
  apply List.inj_on_of_nodup_map h.nodup hrun hother
  exact (h.id_iff hrun (h.inRange other hother).id).mp hid

/-- The rows of the listed tasks. -/
theorem Stores.mem_listed (h : Stores texts db runs) {taskIds : List TaskId}
    (hids : ∀ id ∈ taskIds, id.uuid.InRange) {row : TaskRunRow} :
    row ∈ db.taskRuns.rows.filter (·.taskId ∈ taskIds.map TaskId.text) ↔
      ∃ run ∈ runs, TaskRunRow.ofExecution texts run = row ∧ run.taskId ∈ taskIds := by
  rw [List.mem_filter, h.rows, List.mem_map, decide_eq_true_iff, List.mem_map]
  constructor
  · rintro ⟨⟨run, hrun, rfl⟩, id, hid, htext⟩
    refine ⟨run, hrun, rfl, ?_⟩
    rwa [(h.taskId_iff hrun (hids id hid)).mp htext.symm]
  · rintro ⟨run, hrun, rfl, hmem⟩
    exact ⟨⟨run, hrun, rfl⟩, run.taskId, hmem, rfl⟩

/-- The query selects the latest runs of the listed tasks. -/
theorem mem_latestRows (h : Stores texts db runs) (hcomp : Comparable texts runs)
    {taskIds : List TaskId} (hids : ∀ id ∈ taskIds, id.uuid.InRange) {row : TaskRunRow} :
    row ∈ latestRows db (taskIds.map TaskId.text) ↔
      ∃ id ∈ taskIds, ∃ run, IsLatest runs id run ∧ TaskRunRow.ofExecution texts run = row := by
  unfold latestRows
  dsimp only
  rw [List.mem_filter, decide_eq_true_iff, rowNumber_eq_one_iff, h.mem_listed hids]
  constructor
  · rintro ⟨⟨run, hrun, rfl, hmem⟩, hfirst⟩
    refine ⟨run.taskId, hmem, run, ⟨hrun, rfl, fun other hother hid => ?_⟩, rfl⟩
    rw [← comesBefore_ofExecution h hcomp hrun hother]
    apply hfirst
    · rw [h.mem_listed hids]
      exact ⟨other, hother, rfl, by rwa [hid]⟩
    · rw [TaskRunRow.ofExecution_taskId texts run,
        h.taskId_iff hother (h.inRange run hrun).taskId]
      exact hid
  · rintro ⟨id, hmem, run, hlatest, rfl⟩
    have hrun := hlatest.mem
    refine ⟨⟨run, hrun, rfl, by rwa [hlatest.taskId]⟩, ?_⟩
    intro row hrow hid
    obtain ⟨other, hother, rfl, -⟩ := (h.mem_listed hids).mp hrow
    rw [comesBefore_ofExecution h hcomp hrun hother]
    apply hlatest.greatest other hother
    rw [TaskRunRow.ofExecution_taskId texts run,
      h.taskId_iff hother (h.inRange run hrun).taskId] at hid
    rw [hid, hlatest.taskId]

/-- The loop over rows of stored runs inserts them one after the other. -/
theorem insertRuns_eq_ok (hreader : reader.RoundTrips) (h : Stores texts db runs)
    (hround : ∀ run ∈ runs, InstantsRoundTrip texts run) (now : TaskRunRow → DateTime)
    {rows : List TaskRunRow} (hrows : ∀ row ∈ rows, row ∈ db.taskRuns.rows)
    (latest : HashMap TaskId Execution) :
    ∃ found : List Execution, (∀ run ∈ found, run ∈ runs) ∧
      rows = found.map (TaskRunRow.ofExecution texts) ∧
      insertRuns texts reader now rows latest =
        .ok (found.foldl (fun latest run => latest.insert run.taskId run) latest) := by
  induction rows generalizing latest with
  | nil => exact ⟨[], fun _ hrun => absurd hrun List.not_mem_nil, rfl, rfl⟩
  | cons row rows ih =>
    have hrow := hrows row List.mem_cons_self
    rw [h.rows, List.mem_map] at hrow
    obtain ⟨run, hrun, rfl⟩ := hrow
    have hrows' : ∀ row ∈ rows, row ∈ db.taskRuns.rows :=
      fun row hrow => hrows row (List.mem_cons_of_mem _ hrow)
    obtain ⟨found, hfound, hmap, hok⟩ := ih hrows' (latest.insert run.taskId run)
    refine ⟨run :: found, ?_, ?_, ?_⟩
    · rintro run' (_ | ⟨_, hrun'⟩)
      · exact hrun
      · exact hfound run' hrun'
    · rw [List.map_cons, hmap]
    · rw [insertRuns, mapRowToExecution_ofExecution hreader (h.inRange run hrun) (hround run hrun),
        List.foldl_cons, ← hok]
      simp only [bind, Except.bind]

/-- Of latest runs, the loop keeps the one of each task. -/
theorem lookup_foldl_latest (hnodup : (runs.map Execution.id).Nodup) {found : List Execution}
    (hlatest : ∀ run ∈ found, IsLatest runs run.taskId run) (id : TaskId) (run : Execution) :
    (found.foldl (fun latest run => latest.insert run.taskId run)
      (∅ : HashMap TaskId Execution)).lookup id = some run ↔ run ∈ found ∧ run.taskId = id := by
  rw [lookup_foldl_insert Execution.taskId fun run => run]
  simp only [Option.map_id', AList.lookup_empty, Option.or_none]
  constructor
  · intro hfind
    have hid : run.taskId = id := by simpa using List.find?_some hfind
    exact ⟨List.mem_reverse.mp (List.mem_of_find?_eq_some hfind), hid⟩
  · rintro ⟨hrun, rfl⟩
    have hsome : (found.reverse.find? fun other => decide (other.taskId = run.taskId)).isSome := by
      rw [List.find?_isSome]
      exact ⟨run, List.mem_reverse.mpr hrun, decide_eq_true rfl⟩
    obtain ⟨first, hfirst⟩ := Option.isSome_iff_exists.mp hsome
    have hfirstId : first.taskId = run.taskId := by simpa using List.find?_some hfirst
    have hfirstLatest := hlatest first (List.mem_reverse.mp (List.mem_of_find?_eq_some hfirst))
    rw [hfirstId] at hfirstLatest
    rw [hfirst, hfirstLatest.unique hnodup (hlatest run hrun)]

/-- The map has the latest run of each listed task that has runs, and nothing else. -/
theorem findLatestRunPerTask_lookup (hreader : reader.RoundTrips) (h : Stores texts db runs)
    (hcomp : Comparable texts runs) (hround : ∀ run ∈ runs, InstantsRoundTrip texts run)
    {maxVariables : ℕ} {fetch : List TaskRunRow → List TaskRunRow}
    (hfetch : ∀ rows, (fetch rows).Perm rows) (now : TaskRunRow → DateTime) {taskIds : List TaskId}
    (hids : ∀ id ∈ taskIds, id.uuid.InRange) (hlength : taskIds.length ≤ maxVariables) :
    ∃ latest, findLatestRunPerTask texts reader maxVariables fetch now db taskIds = .ok latest ∧
      ∀ id run, latest.lookup id = some run ↔ id ∈ taskIds ∧ IsLatest runs id run := by
  unfold findLatestRunPerTask
  by_cases hempty : taskIds.isEmpty
  · rw [if_pos hempty, List.isEmpty_iff.mp hempty]
    exact ⟨∅, rfl, fun id run => by simp⟩
  rw [if_neg hempty, if_neg (not_lt.mpr hlength)]
  have hmem : ∀ row, row ∈ fetch (latestRows db (taskIds.map TaskId.text)) ↔
      ∃ id ∈ taskIds, ∃ run, IsLatest runs id run ∧ TaskRunRow.ofExecution texts run = row :=
    fun row => (hfetch _).mem_iff.trans (mem_latestRows h hcomp hids)
  have hrows : ∀ row ∈ fetch (latestRows db (taskIds.map TaskId.text)), row ∈ db.taskRuns.rows := by
    intro row hrow
    obtain ⟨id, -, run, hlatest, rfl⟩ := (hmem row).mp hrow
    rw [h.rows]
    exact List.mem_map_of_mem hlatest.mem
  obtain ⟨found, hfound, hmap, hok⟩ := insertRuns_eq_ok hreader h hround now hrows ∅
  refine ⟨_, hok, fun id run => ?_⟩
  -- the runs found are the latest ones of the listed tasks
  have hlatest : ∀ run ∈ found, run.taskId ∈ taskIds ∧ IsLatest runs run.taskId run := by
    intro run hrun
    have hrow := List.mem_map_of_mem (f := TaskRunRow.ofExecution texts) hrun
    rw [← hmap] at hrow
    obtain ⟨id, hid, run', hlatest, heq⟩ := (hmem _).mp hrow
    rw [← h.eq_of_row hlatest.mem (hfound run hrun) heq, hlatest.taskId]
    exact ⟨hid, hlatest⟩
  rw [lookup_foldl_latest h.nodup fun run hrun => (hlatest run hrun).2]
  constructor
  · rintro ⟨hrun, rfl⟩
    exact hlatest run hrun
  · rintro ⟨hid, hrun⟩
    have hrow : TaskRunRow.ofExecution texts run ∈ found.map (TaskRunRow.ofExecution texts) := by
      rw [← hmap, hmem]
      exact ⟨id, hid, run, hrun, rfl⟩
    obtain ⟨run', hrun', heq⟩ := List.mem_map.mp hrow
    rw [h.eq_of_row (hfound run' hrun') hrun.mem heq] at hrun'
    exact ⟨hrun', hrun.taskId⟩

end Find

end EasyJob.Persistence.Sqlite
