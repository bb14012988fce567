import EasyJob.Persistence.SaveLoad

/-!
# Decoded rows

`TaskRepo` works on rows whose texts are decoded. Such a database stands for the
one that holds the texts of its rows, and the calls on the two agree as long as
ids have 128 bits, versions do not overflow and texts are read as they were
written.

* `Represents.findById`, `Represents.save`, `Represents.delete`
-/

namespace EasyJob.Persistence.Sqlite

open EasyJob.Chrono EasyJob.Domain

/-! ## Representation -/

/-- The texts of a decoded row. -/
def TaskRow.ofRow (texts : Texts) (row : Persistence.TaskRow) : TaskRow where
  id := TaskId.text row.id
  name := row.name
  description := row.description
  enabled := enabledColumn row.enabled
  executionPolicyJson := texts.executionPolicy.encode row.executionPolicy
  workingDirectory := row.workingDirectory
  environmentJson := texts.environment.encode row.environment
  version := .integer row.version
  createdAt := texts.dateTime.encode row.createdAt
  updatedAt := texts.dateTime.encode row.updatedAt

def TriggerRow.ofRow (texts : Texts) (row : Persistence.TriggerRow) : TriggerRow :=
  .ofTrigger texts row.taskId row.config

def ActionRow.ofRow (texts : Texts) (row : Persistence.ActionRow) : ActionRow :=
  .ofAction texts row.taskId row.config

/-- `raw` holds the texts of the rows of `db`, whose ids are ids of the source. -/
structure Represents (texts : Texts) (raw : Database) (db : Persistence.Database) : Prop where
  tasks : raw.tasks.rows = db.tasks.rows.map (TaskRow.ofRow texts)
  triggers : raw.triggers.rows = db.triggers.rows.map (TriggerRow.ofRow texts)
  actions : raw.actions.rows = db.actions.rows.map (ActionRow.ofRow texts)
  taskIds : ∀ row ∈ db.tasks.rows, row.id.uuid.InRange
  triggerTaskIds : ∀ row ∈ db.triggers.rows, row.taskId.uuid.InRange
  actionTaskIds : ∀ row ∈ db.actions.rows, row.taskId.uuid.InRange

theorem TaskId.text_injective {a b : TaskId} (ha : a.uuid.InRange) (hb : b.uuid.InRange)
    (h : TaskId.text a = TaskId.text b) : a = b := by
  have huuid := displayUuid_injective ha hb h
  cases a
  cases b
  exact congrArg TaskId.mk huuid

section Represents

variable {texts : Texts} {raw raw' : Database} {db : Persistence.Database} {id : TaskId}

theorem decide_text_eq {a b : TaskId} (ha : a.uuid.InRange) (hb : b.uuid.InRange) :
    decide (TaskId.text a = TaskId.text b) = decide (a = b) := by
  by_cases h : a = b
  · rw [h]
    simp
  · have htext : TaskId.text a ≠ TaskId.text b := fun heq => h (TaskId.text_injective ha hb heq)
    simp [h, htext]

/-- Rows of one task among decoded rows and among their texts. -/
theorem filter_map_text {ρ ρ' : Type} {taskId : ρ → TaskId} {taskId' : ρ' → String} {f : ρ → ρ'}
    (hf : ∀ row, taskId' (f row) = TaskId.text (taskId row)) {rows : List ρ}
    (hrows : ∀ row ∈ rows, (taskId row).uuid.InRange) (hid : id.uuid.InRange) :
    (rows.map f).filter (taskId' · = TaskId.text id) = (rows.filter (taskId · = id)).map f := by
  have hfilter : rows.filter ((fun row => decide (taskId' row = TaskId.text id)) ∘ f) =
      rows.filter (taskId · = id) := by
    apply List.filter_congr
    intro row hrow
    rw [Function.comp_apply, hf]
    exact decide_text_eq (hrows row hrow) hid
  rw [List.filter_map, hfilter]

theorem filter_not_map_text {ρ ρ' : Type} {taskId : ρ → TaskId} {taskId' : ρ' → String}
    {f : ρ → ρ'} (hf : ∀ row, taskId' (f row) = TaskId.text (taskId row)) {rows : List ρ}
    (hrows : ∀ row ∈ rows, (taskId row).uuid.InRange) (hid : id.uuid.InRange) :
    (rows.map f).filter (fun row => !decide (taskId' row = TaskId.text id)) =
      (rows.filter fun row => !decide (taskId row = id)).map f := by
  have hfilter : rows.filter ((fun row => !decide (taskId' row = TaskId.text id)) ∘ f) =
      rows.filter fun row => !decide (taskId row = id) := by
    apply List.filter_congr
    intro row hrow
    rw [Function.comp_apply, hf]
    exact congrArg Bool.not (decide_text_eq (hrows row hrow) hid)
  rw [List.filter_map, hfilter]

/-! ## Loading -/

theorem Represents.find (h : Represents texts raw db) (hid : id.uuid.InRange) :
    raw.tasks.find (TaskId.text id) = (db.tasks.find id).map (TaskRow.ofRow texts) := by
  cases hfind : db.tasks.find id with
  | some row =>
    obtain ⟨hmem, hkey⟩ := Table.find_eq_some.mp hfind
    rw [Option.map_some, Table.find_eq_some, h.tasks]
    exact ⟨List.mem_map_of_mem hmem, congrArg TaskId.text hkey⟩
  | none =>
    rw [Option.map_none, Table.find_eq_none, h.tasks]
    intro row hrow hkey
    obtain ⟨row', hmem, rfl⟩ := List.mem_map.mp hrow
    exact Table.find_eq_none.mp hfind row' hmem
      (TaskId.text_injective (h.taskIds row' hmem) hid hkey)

theorem Represents.triggerTexts (h : Represents texts raw db) (hid : id.uuid.InRange) :
    raw.triggerTexts (TaskId.text id) = (db.triggersOf id).map texts.trigger.encode := by
  rw [Database.triggerTexts, h.triggers,
    filter_map_text (f := TriggerRow.ofRow texts)
      (fun _ => rfl) h.triggerTaskIds hid, Persistence.Database.triggersOf, List.map_map,
    List.map_map]
  rfl

theorem Represents.actionTexts (h : Represents texts raw db) (hid : id.uuid.InRange) :
    raw.actionTexts (TaskId.text id) = (db.actionsOf id).map texts.action.encode := by
  rw [Database.actionTexts, h.actions,
    filter_map_text (f := ActionRow.ofRow texts)
      (fun _ => rfl) h.actionTaskIds hid, Persistence.Database.actionsOf]
  generalize db.actions.rows.filter (·.taskId = id) = rows
  have htexts := List.map_insertionSort
    (fun a b : Persistence.ActionRow => a.config.sequence ≤ b.config.sequence)
    (fun a b : ActionRow => a.sequence ≤ b.sequence)
    (ActionRow.ofRow texts) rows
    fun _ _ _ _ => Int.ofNat_le.symm
  have hconfigs := List.map_insertionSort
    (fun a b : Persistence.ActionRow => a.config.sequence ≤ b.config.sequence)
    (fun a b : Action => a.sequence ≤ b.sequence) Persistence.ActionRow.config rows
    fun _ _ _ _ => Iff.rfl
  rw [← htexts, sortBySequence, ← hconfigs, List.map_map, List.map_map]
  rfl

theorem Codec.RoundTrips.read {α : Type} {c : Codec α} {x : α} (h : c.RoundTrips x) :
    c.read (c.encode x) = .ok x := by
  have hdecode : c.decode (c.encode x) = some x := h
  rw [Codec.read, hdecode]

/-- What is read from the texts is what is read from the decoded rows. -/
theorem Represents.findById (h : Represents texts raw db) (hid : id.uuid.InRange)
    (hround : ∀ task, db.findById id = some task → texts.RoundTrips task) (now₁ now₂ : DateTime) :
    Sqlite.findById texts now₁ now₂ raw id = .ok (db.findById id) := by
  rw [Sqlite.findById, h.find hid, Persistence.Database.findById]
  cases hrow : db.tasks.find id with
  | none => rfl
  | some row =>
    have htask := hround _ (by rw [Persistence.Database.findById, hrow, Option.map_some])
    have hcreated : texts.dateTime.decode (texts.dateTime.encode row.createdAt) =
        some row.createdAt := htask.createdAt
    have hupdated : texts.dateTime.decode (texts.dateTime.encode row.updatedAt) =
        some row.updatedAt := htask.updatedAt
    simp only [Option.map_some, TaskRow.ofRow, h.triggerTexts hid, h.actionTexts hid,
      mapM_read htask.triggers, mapM_read htask.actions, htask.executionPolicy.read,
      htask.environment.read, Number.read, hcreated, hupdated, enabledColumn_eq_one]
    rfl

/-! ## Saving -/

/-- Saving over a decoded row and over its texts. -/
theorem TaskRow.ofRow_update {task : Task} {row : Persistence.TaskRow}
    (hversion : row.version < i64Max) :
    TaskRow.ofRow texts ((Persistence.TaskRow.ofTask task).update row) =
      (TaskRow.ofTask texts task).update (TaskRow.ofRow texts row) := by
  have hsucc : (Number.integer row.version).succ = .integer (row.version + 1) := if_pos hversion
  unfold TaskRow.update TaskRow.ofRow
  rw [hsucc]
  rfl

theorem Represents.rows_upsert (h : Represents texts raw db) {task : Task}
    (hid : task.id.uuid.InRange)
    (hversion : ∀ row ∈ db.tasks.rows, row.id = task.id → row.version < i64Max) :
    (raw.tasks.upsert (TaskRow.ofTask texts task) (TaskRow.ofTask texts task).update
      (TaskRow.ofTask texts task).update_id).rows =
      (db.tasks.upsert (Persistence.TaskRow.ofTask task) (Persistence.TaskRow.ofTask task).update
        (Persistence.TaskRow.update_id _)).rows.map (TaskRow.ofRow texts) := by
  have hkey (row : Persistence.TaskRow) (hrow : row ∈ db.tasks.rows) :
      TaskId.text row.id = TaskId.text task.id ↔ row.id = task.id :=
    ⟨TaskId.text_injective (h.taskIds row hrow) hid, congrArg TaskId.text⟩
  have hmem : TaskId.text task.id ∈ raw.tasks.rows.map TaskRow.id ↔
      task.id ∈ db.tasks.rows.map Persistence.TaskRow.id := by
    rw [h.tasks, List.map_map, List.mem_map, List.mem_map]
    constructor
    · rintro ⟨row, hrow, htext⟩
      exact ⟨row, hrow, (hkey row hrow).mp htext⟩
    · rintro ⟨row, hrow, hrid⟩
      exact ⟨row, hrow, (hkey row hrow).mpr hrid⟩
  unfold Table.upsert
  by_cases hexists : task.id ∈ db.tasks.rows.map Persistence.TaskRow.id
  · have hleft : (TaskRow.ofTask texts task).id ∈ raw.tasks.rows.map TaskRow.id := hmem.mpr hexists
    have hright : (Persistence.TaskRow.ofTask task).id ∈ db.tasks.rows.map Persistence.TaskRow.id :=
      hexists
    rw [dif_pos hleft, dif_pos hright]
    show raw.tasks.rows.map _ = (db.tasks.rows.map _).map _
    rw [h.tasks, List.map_map, List.map_map]
    apply List.map_congr_left
    intro row hrow
    rw [Function.comp_apply, Function.comp_apply]
    by_cases heq : row.id = task.id
    · have hleft' : (TaskRow.ofRow texts row).id = (TaskRow.ofTask texts task).id :=
        (hkey row hrow).mpr heq
      have hright' : row.id = (Persistence.TaskRow.ofTask task).id := heq
      rw [if_pos hleft', if_pos hright', TaskRow.ofRow_update (hversion row hrow heq)]
    · have hleft' : (TaskRow.ofRow texts row).id ≠ (TaskRow.ofTask texts task).id :=
        fun htext => heq ((hkey row hrow).mp htext)
      have hright' : row.id ≠ (Persistence.TaskRow.ofTask task).id := heq
      rw [if_neg hleft', if_neg hright']
  · have hleft : (TaskRow.ofTask texts task).id ∉ raw.tasks.rows.map TaskRow.id :=
      fun hleft => hexists (hmem.mp hleft)
    have hright : (Persistence.TaskRow.ofTask task).id ∉ db.tasks.rows.map Persistence.TaskRow.id :=
      hexists
    rw [dif_neg hleft, dif_neg hright]
    show raw.tasks.rows ++ _ = (db.tasks.rows ++ _).map _
    rw [h.tasks, List.map_append]
    rfl

/-- A save that succeeds on the texts is the save of the decoded rows. -/
theorem Represents.save (h : Represents texts raw db) {task : Task} (hid : task.id.uuid.InRange)
    (hversion : ∀ row ∈ db.tasks.rows, row.id = task.id → row.version < i64Max)
    {fails : ℕ → Bool} (hok : Sqlite.save texts fails raw task = (.ok (), raw')) :
    ∃ db', db.save task = some db' ∧ Represents texts raw' db' := by
  have hsaved := saved_of_executeAll (transaction_ok hok)
  have htriggers : raw'.triggers.rows = ((db.triggers.rows.filter fun row =>
      !decide (row.taskId = task.id)) ++ task.triggers.map (Persistence.TriggerRow.mk task.id)).map
        (TriggerRow.ofRow texts) := by
    rw [hsaved.triggers, h.triggers, filter_not_map_text (f := TriggerRow.ofRow texts)
      (fun _ => rfl) h.triggerTaskIds hid, List.map_append, List.map_map]
    rfl
  have hactions : raw'.actions.rows = ((db.actions.rows.filter fun row =>
      !decide (row.taskId = task.id)) ++ task.actions.map (Persistence.ActionRow.mk task.id)).map
        (ActionRow.ofRow texts) := by
    rw [hsaved.actions, h.actions, filter_not_map_text (f := ActionRow.ofRow texts)
      (fun _ => rfl) h.actionTaskIds hid, List.map_append, List.map_map]
    rfl
  -- The texts of the ids are distinct, so the ids are.
  have hnodup : (((db.triggers.deleteWhere fun row => decide (row.taskId = task.id)).rows ++
      task.triggers.map (Persistence.TriggerRow.mk task.id)).map
        Persistence.TriggerRow.id).Nodup := by
    have htexts := raw'.triggers.nodup
    rw [htriggers, List.map_map] at htexts
    apply List.Nodup.of_map fun id : TriggerId => displayUuid id.uuid
    rw [List.map_map]
    exact htexts
  have hnodup' : (((db.actions.deleteWhere fun row => decide (row.taskId = task.id)).rows ++
      task.actions.map (Persistence.ActionRow.mk task.id)).map Persistence.ActionRow.id).Nodup := by
    have htexts := raw'.actions.nodup
    rw [hactions, List.map_map] at htexts
    apply List.Nodup.of_map fun id : ActionId => displayUuid id.uuid
    rw [List.map_map]
    exact htexts
  obtain ⟨triggers, hinsert⟩ := Table.insertAll_of_nodup hnodup
  obtain ⟨actions, hinsert'⟩ := Table.insertAll_of_nodup hnodup'
  refine ⟨_, Option.bind_eq_some_iff.mpr ⟨triggers, hinsert,
    Option.bind_eq_some_iff.mpr ⟨actions, hinsert', rfl⟩⟩, ?_⟩
  constructor
  · rw [hsaved.tasks]
    exact h.rows_upsert hid hversion
  · rw [htriggers]
    exact congrArg _ (Table.rows_insertAll hinsert).symm
  · rw [hactions]
    exact congrArg _ (Table.rows_insertAll hinsert').symm
  · intro row hrow
    have hfind := Table.find_eq_some.mpr ⟨hrow, rfl⟩
    rw [Table.find_upsert] at hfind
    split_ifs at hfind with heq
    · rw [heq]
      exact hid
    · exact h.taskIds row (Table.find_eq_some.mp hfind).1
  · intro row hrow
    rw [Table.rows_insertAll hinsert, List.mem_append] at hrow
    rcases hrow with hrow | hrow
    · exact h.triggerTaskIds row (List.mem_of_mem_filter hrow)
    · obtain ⟨trigger, -, rfl⟩ := List.mem_map.mp hrow
      exact hid
  · intro row hrow
    rw [Table.rows_insertAll hinsert', List.mem_append] at hrow
    rcases hrow with hrow | hrow
    · exact h.actionTaskIds row (List.mem_of_mem_filter hrow)
    · obtain ⟨action, -, rfl⟩ := List.mem_map.mp hrow
      exact hid

/-! ## Deleting -/

theorem Represents.delete (h : Represents texts raw db) (hid : id.uuid.InRange) :
    Represents texts (raw.deleteTask (TaskId.text id)) (db.delete id) := by
  refine ⟨?_, ?_, ?_, ?_, ?_, ?_⟩
  · show raw.tasks.rows.filter _ = (db.tasks.rows.filter _).map _
    rw [h.tasks]
    exact filter_not_map_text (f := TaskRow.ofRow texts) (fun _ => rfl) h.taskIds hid
  · refine (raw.triggers_task.rows_cascade (TaskId.text id)).trans ?_
    rw [h.triggers]
    exact filter_not_map_text (f := TriggerRow.ofRow texts) (fun _ => rfl) h.triggerTaskIds hid
  · refine (raw.actions_task.rows_cascade (TaskId.text id)).trans ?_
    rw [h.actions]
    exact filter_not_map_text (f := ActionRow.ofRow texts) (fun _ => rfl) h.actionTaskIds hid
  · exact fun row hrow => h.taskIds row (List.mem_of_mem_filter hrow)
  · exact fun row hrow => h.triggerTaskIds row (List.mem_of_mem_filter hrow)
  · exact fun row hrow => h.actionTaskIds row (List.mem_of_mem_filter hrow)

end Represents

end EasyJob.Persistence.Sqlite
