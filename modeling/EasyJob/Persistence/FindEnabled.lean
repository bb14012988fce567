import EasyJob.Persistence.Represents

/-!
# Loading the enabled tasks

Model of `find_all_enabled` (`crates/persistence/src/task_repo.rs` lines 49–65) on
the texts that the tables hold. `TaskId::parse` is a parameter.

* `exists_findById_iff`: an id is read without an error exactly if the row with its text
  decodes.
* `loadRows_isOk`, `loadRows_eq_ok`: the loop ends if nothing fails, with what was read for
  its rows.
* `Represents.findAllEnabled`: over decoded rows it is the one of `TaskRepo`.
-/

namespace EasyJob.Persistence.Sqlite

open EasyJob.Chrono EasyJob.Domain

/-! ## Decoding a row -/

/-- The columns of `row`, and of the triggers and actions that refer to it, decode to those of
    `task`. An instant that cannot be read stands for any. -/
structure Holds (texts : Texts) (db : Database) (row : TaskRow) (task : Task) : Prop where
  name : task.name = row.name
  description : task.description = row.description
  enabled : task.enabled = (row.enabled == 1)
  triggers : (db.triggerTexts row.id).mapM texts.trigger.decode = some task.triggers
  actions : (db.actionTexts row.id).mapM texts.action.decode = some task.actions
  executionPolicy : texts.executionPolicy.decode row.executionPolicyJson = some task.executionPolicy
  workingDirectory : task.workingDirectory = row.workingDirectory
  environment : texts.environment.decode row.environmentJson = some task.environment
  version : row.version = .integer task.version
  createdAt : ∀ t, texts.dateTime.decode row.createdAt = some t → task.createdAt = t
  updatedAt : ∀ t, texts.dateTime.decode row.updatedAt = some t → task.updatedAt = t

/-- The row of a task and the rows that refer to it decode. -/
def Decodes (texts : Texts) (db : Database) (row : TaskRow) : Prop :=
  ∃ task, Holds texts db row task

section Decode

variable {texts : Texts} {db : Database} {row : TaskRow} {id : TaskId} {task : Task}
  {now₁ now₂ : DateTime}

theorem Codec.read_eq_ok_iff {α : Type} {c : Codec α} {text : String} {x : α} :
    c.read text = .ok x ↔ c.decode text = some x := by
  rw [Codec.read]
  cases c.decode text <;> simp

theorem mapM_read_eq_ok_iff {α : Type} {c : Codec α} {texts : List String} {xs : List α} :
    texts.mapM c.read = .ok xs ↔ texts.mapM c.decode = some xs := by
  induction texts generalizing xs with
  | nil => simp [pure, Except.pure]
  | cons text texts ih =>
    rw [List.mapM_cons, List.mapM_cons, Codec.read]
    cases c.decode text with
    | none => simp [bind, Except.bind]
    | some x =>
      cases hrest : texts.mapM c.decode with
      | none =>
        have hno : ∀ ys, texts.mapM c.read ≠ .ok ys := by simp [ih, hrest]
        cases hread : texts.mapM c.read with
        | error e => simp [bind, Except.bind, pure]
        | ok ys => exact absurd hread (hno ys)
      | some ys => simp [ih.mpr hrest, bind, Except.bind, pure, Except.pure]

theorem bind_eq_ok_iff {ε α β : Type} {x : Except ε α} {f : α → Except ε β} {y : β} :
    (x >>= f) = .ok y ↔ ∃ a, x = .ok a ∧ f a = .ok y := by
  cases x <;> simp [bind, Except.bind]

theorem Number.read_eq_ok_iff {number : Number} {n : ℤ} :
    number.read = .ok n ↔ number = .integer n := by
  cases number <;> simp [Number.read]

/-- What is read under an id is what the row with its text holds. -/
theorem findById_eq_ok_iff (hrow : db.tasks.find (TaskId.text id) = some row) :
    findById texts now₁ now₂ db id = .ok (some task) ↔
      Holds texts db row task ∧ task.id = id ∧
        task.createdAt = (texts.dateTime.decode row.createdAt).getD now₁ ∧
        task.updatedAt = (texts.dateTime.decode row.updatedAt).getD now₂ := by
  have hkey := Table.find_key hrow
  rw [findById, hrow]
  simp only [bind_eq_ok_iff, mapM_read_eq_ok_iff, Codec.read_eq_ok_iff,
    Number.read_eq_ok_iff, ← hkey]
  constructor
  · rintro ⟨triggers, htriggers, actions, hactions, policy, hpolicy, environment, henvironment,
      version, hversion, htask⟩
    cases htask
    refine ⟨⟨rfl, rfl, rfl, htriggers, hactions, hpolicy, rfl, henvironment, hversion, ?_, ?_⟩,
      rfl, rfl, rfl⟩
    · intro t ht
      rw [ht, Option.getD_some]
    · intro t ht
      rw [ht, Option.getD_some]
  · rintro ⟨h, rfl, hcreated, hupdated⟩
    refine ⟨_, h.triggers, _, h.actions, _, h.executionPolicy, _, h.environment, _, h.version, ?_⟩
    rw [← h.name, ← h.description, ← h.enabled, ← h.workingDirectory, ← hcreated, ← hupdated]
    rfl

theorem Holds.getD_createdAt (h : Holds texts db row task) :
    (texts.dateTime.decode row.createdAt).getD task.createdAt = task.createdAt := by
  cases hdecode : texts.dateTime.decode row.createdAt with
  | none => rfl
  | some t => exact (h.createdAt t hdecode).symm

theorem Holds.getD_updatedAt (h : Holds texts db row task) :
    (texts.dateTime.decode row.updatedAt).getD task.updatedAt = task.updatedAt := by
  cases hdecode : texts.dateTime.decode row.updatedAt with
  | none => rfl
  | some t => exact (h.updatedAt t hdecode).symm

theorem Holds.findById (h : Holds texts db row task)
    (hrow : db.tasks.find (TaskId.text id) = some row) (now₁ now₂ : DateTime) :
    Sqlite.findById texts now₁ now₂ db id = .ok (some { task with
      id := id
      createdAt := (texts.dateTime.decode row.createdAt).getD now₁
      updatedAt := (texts.dateTime.decode row.updatedAt).getD now₂ }) := by
  rw [findById_eq_ok_iff hrow]
  refine ⟨{ h with createdAt := ?_, updatedAt := ?_ }, rfl, rfl, rfl⟩
  · intro t ht
    rw [ht, Option.getD_some]
  · intro t ht
    rw [ht, Option.getD_some]

theorem exists_findById_iff (hrow : db.tasks.find (TaskId.text id) = some row)
    (now₁ now₂ : DateTime) :
    (∃ found, findById texts now₁ now₂ db id = .ok found) ↔ Decodes texts db row := by
  constructor
  · rintro ⟨found, hfound⟩
    cases found with
    | none =>
      -- a row that is there is not read as none
      rw [findById, hrow] at hfound
      simp [bind_eq_ok_iff, pure, Except.pure] at hfound
    | some task => exact ⟨task, ((findById_eq_ok_iff hrow).mp hfound).1⟩
  · rintro ⟨task, htask⟩
    exact ⟨_, htask.findById hrow now₁ now₂⟩

theorem findById_of_find_none (hrow : db.tasks.find (TaskId.text id) = none) :
    findById texts now₁ now₂ db id = .ok none := by
  rw [findById, hrow]

end Decode

/-! ## The loop -/

section Load

variable (parse : String → Option TaskId) (texts : Texts) (db : Database)

/-- The loop of `find_all_enabled` (lines 55–64) over the ids of its `SELECT`. `now k` are the
    readings of `Utc::now` at row `k`. -/
def loadRows : (ℕ → DateTime × DateTime) → List TaskRow → Except ReadError (List Task)
  | _, [] => .ok []
  | now, row :: rows =>
    match parse row.id with
    | none => loadRows (fun k => now (k + 1)) rows
    | some id => do
      let found ← findById texts (now 0).1 (now 0).2 db id
      let tasks ← loadRows (fun k => now (k + 1)) rows
      return found.toList ++ tasks

/-- Model of `find_all_enabled`. -/
def findAllEnabled (now : ℕ → DateTime × DateTime) : Except ReadError (List Task) :=
  loadRows parse texts db now (db.tasks.rows.filter (·.enabled = 1))

end Load

section Load

variable {parse : String → Option TaskId} {texts : Texts} {db : Database} {rows : List TaskRow}
  {now : ℕ → DateTime × DateTime} {tasks : List Task}

/-- The loop ends with the tasks it found, if no row makes it fail. -/
theorem loadRows_isOk (now : ℕ → DateTime × DateTime)
    (h : ∀ row ∈ rows, ∀ id, parse row.id = some id → ∀ now₁ now₂,
      ∃ found, findById texts now₁ now₂ db id = .ok found) :
    ∃ tasks, loadRows parse texts db now rows = .ok tasks := by
  induction rows generalizing now with
  | nil => exact ⟨[], rfl⟩
  | cons row rows ih =>
    obtain ⟨tasks, htasks⟩ := ih (fun k => now (k + 1))
      fun row' hrow' => h row' (List.mem_cons_of_mem row hrow')
    cases hid : parse row.id with
    | none =>
      refine ⟨tasks, ?_⟩
      rw [loadRows, hid]
      exact htasks
    | some id =>
      obtain ⟨found, hfound⟩ := h row List.mem_cons_self id hid (now 0).1 (now 0).2
      refine ⟨found.toList ++ tasks, ?_⟩
      rw [loadRows, hid]
      dsimp only
      rw [hfound, htasks]
      rfl

/-- What the loop read for its rows, when it ended: nothing failed, and the tasks are what was
    found. -/
theorem loadRows_eq_ok (h : loadRows parse texts db now rows = .ok tasks) :
    (∀ row ∈ rows, ∀ id, parse row.id = some id → ∃ k found,
      findById texts (now k).1 (now k).2 db id = .ok found ∧ ∀ task ∈ found, task ∈ tasks) ∧
    ∀ task ∈ tasks, ∃ k id, findById texts (now k).1 (now k).2 db id = .ok (some task) := by
  induction rows generalizing now tasks with
  | nil =>
    cases h
    exact ⟨fun _ hrow => absurd hrow List.not_mem_nil, fun _ htask => absurd htask List.not_mem_nil⟩
  | cons row rows ih =>
    rw [loadRows] at h
    cases hid : parse row.id with
    | none =>
      rw [hid] at h
      obtain ⟨hrows, htasks⟩ := ih h
      refine ⟨?_, ?_⟩
      · intro row' hrow' id hid'
        rcases List.mem_cons.mp hrow' with rfl | hrow'
        · rw [hid] at hid'
          cases hid'
        · obtain ⟨k, found⟩ := hrows row' hrow' id hid'
          exact ⟨k + 1, found⟩
      · intro task htask
        obtain ⟨k, id, hfound⟩ := htasks task htask
        exact ⟨k + 1, id, hfound⟩
    | some id =>
      rw [hid] at h
      simp only [bind_eq_ok_iff] at h
      obtain ⟨found, hfound, rest, hrest, heq⟩ := h
      cases heq
      obtain ⟨hrows, htasks⟩ := ih hrest
      refine ⟨?_, ?_⟩
      · intro row' hrow' id' hid'
        rcases List.mem_cons.mp hrow' with rfl | hrow'
        · rw [hid] at hid'
          cases hid'
          refine ⟨0, found, hfound, fun task htask => List.mem_append_left _ ?_⟩
          simpa using htask
        · obtain ⟨k, found', hfound', hmem⟩ := hrows row' hrow' id' hid'
          refine ⟨k + 1, found', hfound', fun task htask => ?_⟩
          exact List.mem_append_right _ (hmem task htask)
      · intro task htask
        rcases List.mem_append.mp htask with htask | htask
        · rw [Option.mem_toList] at htask
          rw [htask] at hfound
          exact ⟨0, id, hfound⟩
        · obtain ⟨k, id', hfound'⟩ := htasks task htask
          exact ⟨k + 1, id', hfound'⟩

/-- Over decoded rows the same tasks are loaded. -/
theorem Represents.findAllEnabled {decoded : Persistence.Database}
    (h : Represents texts db decoded)
    (hparse : ∀ row ∈ decoded.tasks.rows, parse (TaskId.text row.id) = some row.id)
    (hround : ∀ id task, decoded.findById id = some task → texts.RoundTrips task) :
    Sqlite.findAllEnabled parse texts db now = .ok decoded.findAllEnabled := by
  have hload : ∀ (rows : List Persistence.TaskRow) (now : ℕ → DateTime × DateTime),
      (∀ row ∈ rows, row ∈ decoded.tasks.rows) →
      loadRows parse texts db now (rows.map (TaskRow.ofRow texts)) =
        .ok (rows.filterMap fun row => decoded.findById row.id) := by
    intro rows
    induction rows with
    | nil => exact fun _ _ => rfl
    | cons row rows ih =>
      intro now hrows
      have hmem := hrows row List.mem_cons_self
      have hid : parse (TaskRow.ofRow texts row).id = some row.id := hparse row hmem
      have hfound := h.findById (h.taskIds row hmem) (hround row.id) (now 0).1 (now 0).2
      have hrest := ih (fun k => now (k + 1)) fun row' hrow' =>
        hrows row' (List.mem_cons_of_mem row hrow')
      rw [List.map_cons, loadRows, hid]
      dsimp only
      rw [hfound, hrest, List.filterMap_cons]
      cases decoded.findById row.id <;> rfl
  have hrows : db.tasks.rows.filter (·.enabled = 1) =
      (decoded.tasks.rows.filter (·.enabled)).map (TaskRow.ofRow texts) := by
    rw [h.tasks, List.filter_map]
    congr 1
    apply List.filter_congr
    intro row _
    show decide (enabledColumn row.enabled = 1) = row.enabled
    cases row.enabled <;> rfl
  rw [Sqlite.findAllEnabled, hrows]
  exact hload _ now fun row hrow => List.mem_of_mem_filter hrow

end Load

end EasyJob.Persistence.Sqlite
