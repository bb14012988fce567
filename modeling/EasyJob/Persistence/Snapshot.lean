import EasyJob.Lib.Transition
import EasyJob.Persistence.TaskRepo

/-!
# Reading a task while it is saved

`find_by_id` (`crates/persistence/src/task_repo.rs` lines 67–135) makes three
queries outside a transaction, each of which sees the last commit. Between them
any tasks are saved and deleted (lines 137–240).

* `findById_snapshot`: if the triggers and the actions are still those of the first
  query, the result is the task at that query; without a delete of the task,
  any other result was never stored during the call.
* `findById_torn`: a save between the first two queries.
-/

namespace EasyJob.Persistence

open EasyJob.Domain Transition

/-! ## States -/

/-- The task made of a row with triggers and actions. -/
def TaskRow.toTask (row : TaskRow) (id : TaskId) (triggers : List Trigger)
    (actions : List Action) : Task where
  id := id
  name := row.name
  description := row.description
  enabled := row.enabled
  triggers := triggers
  actions := actions
  executionPolicy := row.executionPolicy
  workingDirectory := row.workingDirectory
  environment := row.environment
  version := row.version
  createdAt := row.createdAt
  updatedAt := row.updatedAt

theorem Database.findById_eq (db : Database) (id : TaskId) :
    db.findById id =
      (db.tasks.find id).map fun row => row.toTask id (db.triggersOf id) (db.actionsOf id) := rfl

/-- Where the call stands. -/
inductive ReadPhase
  | idle
  | called
  /-- After the first query. -/
  | gotRow (row : TaskRow)
  /-- After the second. -/
  | gotTriggers (row : TaskRow) (triggers : List Trigger)
  | returned (result : Option Task)

def ReadPhase.inProgress : ReadPhase → Bool
  | .called | .gotRow _ | .gotTriggers _ _ => true
  | .idle | .returned _ => false

structure ReadState where
  db : Database
  phase : ReadPhase
  /-- The task that was stored when the first query ran. -/
  first : Option Task
  /-- What was stored for the id, at each moment of the call. -/
  versions : List (Option Task)

inductive ReadAction
  /-- A call of `save`, which may fail. -/
  | save (task : Task)
  | delete (id : TaskId)
  | call
  | queryTask
  | queryTriggers
  | queryActions

/-! ## Steps -/

/-- A write is committed. -/
def ReadState.commit (s : ReadState) (id : TaskId) (db : Database) : ReadState :=
  { s with
    db := db
    versions := if s.phase.inProgress then s.versions ++ [db.findById id] else s.versions }

/-- One step of the call of `find_by_id` for `id`, or a write of someone else. -/
def readStep (id : TaskId) (s : ReadState) : ReadAction → Option (ReadState × List Empty)
  | .save task =>
    match s.db.save task with
    | some db => some (s.commit id db, [])
    | none => some (s, [])
  | .delete deleted => some (s.commit id (s.db.delete deleted), [])
  | .call =>
    match s.phase with
    | .idle => some ({ s with phase := .called, versions := [s.db.findById id] }, [])
    | _ => none
  | .queryTask =>
    match s.phase with
    | .called =>
      match s.db.tasks.find id with
      | some row => some ({ s with phase := .gotRow row, first := s.db.findById id }, [])
      | none => some ({ s with phase := .returned none, first := none }, [])
    | _ => none
  | .queryTriggers =>
    match s.phase with
    | .gotRow row => some ({ s with phase := .gotTriggers row (s.db.triggersOf id) }, [])
    | _ => none
  | .queryActions =>
    match s.phase with
    | .gotTriggers row triggers => some ({ s with
        phase := .returned (some (row.toTask id triggers (s.db.actionsOf id))) }, [])
    | _ => none

def reader (db : Database) (id : TaskId) : Machine ReadState ReadAction Empty where
  init := ⟨db, .idle, none, []⟩
  step := readStep id

/-- The triggers, when they are read, and the actions, when they are read, are those that
    were stored when the row was read. -/
def ReadsFirst (id : TaskId) (s : ReadState) : ReadAction → Prop
  | .queryTriggers => ∀ task, s.first = some task → s.db.triggersOf id = task.triggers
  | .queryActions => ∀ task, s.first = some task → s.db.actionsOf id = task.actions
  | _ => True

/-- The task is not deleted. -/
def KeepsTask (id : TaskId) (_ : ReadState) : ReadAction → Prop
  | .delete deleted => deleted ≠ id
  | _ => True

/-! ## What the call has read -/

section Invariant

variable {db : Database} {id : TaskId} {s s' : ReadState} {a : ReadAction} {o : List Empty}

/-- The task at the first query has the columns of the row that was read. -/
def HasRow (id : TaskId) (s : ReadState) (row : TaskRow) : Prop :=
  s.first ∈ s.versions ∧ ∃ triggers actions, s.first = some (row.toTask id triggers actions)

/-- The invariant of every call. -/
def CallInv (id : TaskId) (s : ReadState) : Prop :=
  match s.phase with
  | .idle => True
  | .called => s.db.findById id ∈ s.versions
  | .gotRow row => HasRow id s row
  | .gotTriggers row _ => HasRow id s row
  | .returned none => none ∈ s.versions
  | .returned (some result) => s.first ∈ s.versions ∧ ∃ triggers actions,
      s.first = some { result with triggers := triggers, actions := actions }

theorem mem_versions_commit (h : s.phase.inProgress = true) (db : Database) :
    db.findById id ∈ (s.commit id db).versions := by
  rw [ReadState.commit, if_pos h]
  exact List.mem_append_right _ List.mem_cons_self

theorem versions_subset_commit (s : ReadState) (id : TaskId) (db : Database) :
    s.versions ⊆ (s.commit id db).versions := by
  rw [ReadState.commit]
  split_ifs
  · exact List.subset_append_left _ _
  · exact List.Subset.refl _

theorem CallInv.commit (h : CallInv id s) (db : Database) : CallInv id (s.commit id db) := by
  have hsubset := versions_subset_commit s id db
  unfold CallInv at h ⊢
  rw [show (s.commit id db).phase = s.phase from rfl]
  cases hphase : s.phase with
  | idle => trivial
  | called => exact mem_versions_commit (by rw [hphase]; rfl) db
  | gotRow | gotTriggers =>
    rw [hphase] at h
    exact ⟨hsubset h.1, h.2⟩
  | returned result =>
    rw [hphase] at h
    cases result with
    | none => exact hsubset h
    | some => exact ⟨hsubset h.1, h.2⟩

theorem CallInv.step (h : CallInv id s) (hst : readStep id s a = some (s', o)) :
    CallInv id s' := by
  cases a with
  | save task =>
    simp only [readStep] at hst
    split at hst
    · cases hst
      exact h.commit _
    · cases hst
      exact h
  | delete deleted =>
    cases hst
    exact h.commit _
  | call =>
    simp only [readStep] at hst
    split at hst
    · cases hst
      exact List.mem_cons_self
    · cases hst
  | queryTask =>
    simp only [readStep] at hst
    split at hst
    · rename_i hphase
      rw [CallInv, hphase] at h
      split at hst
      · rename_i row hrow
        cases hst
        refine ⟨h, s.db.triggersOf id, s.db.actionsOf id, ?_⟩
        show s.db.findById id = _
        rw [Database.findById_eq, hrow]
        rfl
      · rename_i hrow
        cases hst
        have hnone : s.db.findById id = none := by rw [Database.findById_eq, hrow]; rfl
        have hmem : s.db.findById id ∈ s.versions := h
        rw [hnone] at hmem
        exact hmem
    · cases hst
  | queryTriggers =>
    simp only [readStep] at hst
    split at hst
    · rename_i row hphase
      cases hst
      rw [CallInv, hphase] at h
      exact h
    · cases hst
  | queryActions =>
    simp only [readStep] at hst
    split at hst
    · rename_i row triggers hphase
      cases hst
      rw [CallInv, hphase] at h
      exact h
    · cases hst

theorem reachable_callInv {ok : ReadState → ReadAction → Prop}
    (h : (reader db id).Reachable ok s) : CallInv id s :=
  h.invariant (I := CallInv id) trivial fun _ _ _ _ hi _ hst => hi.step hst

/-! ## A call that reads what was stored first -/

/-- What was read so far is what was stored at the first query. -/
def FirstInv (id : TaskId) (s : ReadState) : Prop :=
  match s.phase with
  | .gotTriggers row triggers => ∃ actions, s.first = some (row.toTask id triggers actions)
  | .returned (some result) => s.first = some result
  | _ => True

theorem FirstInv.step (h : FirstInv id s) (hcall : CallInv id s) (hok : ReadsFirst id s a)
    (hst : readStep id s a = some (s', o)) : FirstInv id s' := by
  cases a with
  | save task =>
    simp only [readStep] at hst
    split at hst
    · cases hst
      exact h
    · cases hst
      exact h
  | delete deleted =>
    cases hst
    exact h
  | call =>
    simp only [readStep] at hst
    split at hst
    · cases hst
      trivial
    · cases hst
  | queryTask =>
    simp only [readStep] at hst
    split at hst
    · split at hst
      · cases hst
        trivial
      · cases hst
        trivial
    · cases hst
  | queryTriggers =>
    simp only [readStep] at hst
    split at hst
    · rename_i row hphase
      cases hst
      rw [CallInv, hphase] at hcall
      obtain ⟨-, triggers, actions, hfirst⟩ := hcall
      refine ⟨actions, ?_⟩
      rw [show s.db.triggersOf id = triggers from hok _ hfirst]
      exact hfirst
    · cases hst
  | queryActions =>
    simp only [readStep] at hst
    split at hst
    · rename_i row triggers hphase
      cases hst
      rw [FirstInv, hphase] at h
      obtain ⟨actions, hfirst⟩ := h
      show s.first = _
      rw [show s.db.actionsOf id = actions from hok _ hfirst]
      exact hfirst
    · cases hst

theorem reachable_firstInv (h : (reader db id).Reachable (ReadsFirst id) s) :
    CallInv id s ∧ FirstInv id s := by
  apply h.invariant (I := fun s => CallInv id s ∧ FirstInv id s) ⟨trivial, trivial⟩
  rintro s a t o ⟨hcall, hfirst⟩ hok hst
  exact ⟨hcall.step hst, hfirst.step hcall hok hst⟩

/-! ## The versions during a call -/

/-- A version number belongs to one version, and the stored one is the last. -/
structure VersionInv (id : TaskId) (s : ReadState) : Prop where
  unique : ∀ t t', some t ∈ s.versions → some t' ∈ s.versions → t.version = t'.version → t = t'
  current : s.phase.inProgress = true → ∀ t, some t ∈ s.versions →
    ∃ c, s.db.findById id = some c ∧ (t = c ∨ t.version < c.version)

/-- What is stored for the id stays or gets a higher version. -/
def Advances (id : TaskId) (db db' : Database) : Prop :=
  db'.findById id = db.findById id ∨ ∃ c', db'.findById id = some c' ∧
    ∀ c, db.findById id = some c → c.version < c'.version

theorem advances_save {task : Task} {db' : Database} (h : db.save task = some db') :
    Advances id db db' := by
  have hfind := Database.findById_save h id
  by_cases hid : id = task.id
  · rw [if_pos hid] at hfind
    refine .inr ⟨_, hfind, fun c hc => ?_⟩
    subst hid
    obtain ⟨row, hrow, rfl⟩ := Option.map_eq_some_iff.mp hc
    show row.version < ((db.tasks.find task.id).map (·.version + 1)).getD task.version
    rw [hrow]
    exact Int.lt_succ row.version
  · rw [if_neg hid] at hfind
    exact .inl hfind

theorem advances_delete {deleted : TaskId} (h : deleted ≠ id) :
    Advances id db (db.delete deleted) := by
  have hfind := Database.findById_delete db deleted id
  rw [if_neg (Ne.symm h)] at hfind
  exact .inl hfind

theorem VersionInv.commit (h : VersionInv id s) {db : Database} (hadvances : Advances id s.db db) :
    VersionInv id (s.commit id db) := by
  by_cases hphase : s.phase.inProgress = true
  · have hversions : (s.commit id db).versions = s.versions ++ [db.findById id] := if_pos hphase
    -- Every version so far is the new one or has a lower number.
    have hold : ∀ t, some t ∈ s.versions → ∃ c, db.findById id = some c ∧
        (t = c ∨ t.version < c.version) := by
      intro t ht
      obtain ⟨c, hc, hle⟩ := h.current hphase t ht
      rcases hadvances with heq | ⟨c', hc', hlt⟩
      · exact ⟨c, heq.trans hc, hle⟩
      · refine ⟨c', hc', .inr ?_⟩
        have hlt' := hlt c hc
        rcases hle with rfl | hle
        · exact hlt'
        · exact Int.lt_trans hle hlt'
    have hnew : ∀ t, some t ∈ (s.commit id db).versions → ∃ c, db.findById id = some c ∧
        (t = c ∨ some t ∈ s.versions ∧ t.version < c.version) := by
      intro t ht
      rw [hversions, List.mem_append, List.mem_singleton] at ht
      rcases ht with ht | ht
      · obtain ⟨c, hc, hle⟩ := hold t ht
        exact ⟨c, hc, hle.imp_right fun hlt => ⟨ht, hlt⟩⟩
      · exact ⟨t, ht.symm, .inl rfl⟩
    constructor
    · intro t t' ht ht' heq
      obtain ⟨c, hc, hle⟩ := hnew t ht
      obtain ⟨c', hc', hle'⟩ := hnew t' ht'
      rw [hc] at hc'
      cases hc'
      rcases hle with rfl | ⟨hmem, hlt⟩
      · rcases hle' with rfl | ⟨-, hlt'⟩
        · rfl
        · omega
      · rcases hle' with rfl | ⟨hmem', -⟩
        · omega
        · exact h.unique t t' hmem hmem' heq
    · intro _ t ht
      obtain ⟨c, hc, hle⟩ := hnew t ht
      exact ⟨c, hc, hle.imp_right And.right⟩
  · have hversions : (s.commit id db).versions = s.versions := if_neg hphase
    constructor
    · rw [hversions]
      exact h.unique
    · exact fun hprogress => absurd hprogress hphase

/-- A query of the call. -/
theorem VersionInv.query (h : VersionInv id s) {phase : ReadPhase} {first : Option Task}
    (hphase : s.phase.inProgress = true) :
    VersionInv id { s with phase := phase, first := first } where
  unique := h.unique
  current := fun _ => h.current hphase

theorem VersionInv.step (h : VersionInv id s) (hok : KeepsTask id s a)
    (hst : readStep id s a = some (s', o)) : VersionInv id s' := by
  cases a with
  | save task =>
    simp only [readStep] at hst
    split at hst
    · rename_i db hsave
      cases hst
      exact h.commit (advances_save hsave)
    · cases hst
      exact h
  | delete deleted =>
    cases hst
    exact h.commit (advances_delete hok)
  | call =>
    simp only [readStep] at hst
    split at hst
    · cases hst
      constructor
      · intro t t' ht ht' _
        rw [List.mem_singleton] at ht ht'
        rw [← ht'] at ht
        cases ht
        rfl
      · intro _ t ht
        rw [List.mem_singleton] at ht
        exact ⟨t, ht.symm, .inl rfl⟩
    · cases hst
  | queryTask =>
    simp only [readStep] at hst
    split at hst
    · rename_i hphase
      split at hst
      · cases hst
        exact h.query (by rw [hphase]; rfl)
      · cases hst
        exact h.query (by rw [hphase]; rfl)
    · cases hst
  | queryTriggers =>
    simp only [readStep] at hst
    split at hst
    · rename_i row hphase
      cases hst
      exact h.query (by rw [hphase]; rfl)
    · cases hst
  | queryActions =>
    simp only [readStep] at hst
    split at hst
    · rename_i row triggers hphase
      cases hst
      exact h.query (by rw [hphase]; rfl)
    · cases hst

theorem reachable_versionInv (h : (reader db id).Reachable (KeepsTask id) s) :
    VersionInv id s := by
  apply h.invariant (I := VersionInv id)
  · exact ⟨fun _ _ ht => absurd ht List.not_mem_nil, fun hphase => by cases hphase⟩
  · exact fun _ _ _ _ hi hok hst => hi.step hok hst

end Invariant

/-- In every run in which the triggers and the actions are read as they were at the first
    query, the result is what was stored then. In every run that does not delete
    the task, a task that is returned was stored during the call exactly when it
    was stored at the first query. -/
theorem findById_snapshot (db : Database) (id : TaskId) :
    (∀ s result, (reader db id).Reachable (ReadsFirst id) s → s.phase = .returned result →
      result ∈ s.versions) ∧
    ∀ s result, (reader db id).Reachable (KeepsTask id) s → s.phase = .returned (some result) →
      (some result ∈ s.versions ↔ s.first = some result) := by
  constructor
  · intro s result h hphase
    obtain ⟨hcall, hfirst⟩ := reachable_firstInv h
    rw [CallInv, hphase] at hcall
    rw [FirstInv, hphase] at hfirst
    cases result with
    | none => exact hcall
    | some result => exact hfirst ▸ hcall.1
  · intro s result h hphase
    have hcall := reachable_callInv h
    rw [CallInv, hphase] at hcall
    obtain ⟨hmem, triggers, actions, hfirst⟩ := hcall
    constructor
    · intro hresult
      rw [hfirst] at hmem ⊢
      have hversion := (reachable_versionInv h).unique _ _ hmem hresult rfl
      rw [hversion]
    · intro heq
      exact heq ▸ hmem

/-! ## A save between two queries -/

/-- A version of a task, with one trigger. -/
def versionOf (name : String) (trigger : Uuid) : Task where
  id := ⟨1⟩
  name := name
  description := none
  enabled := true
  triggers := [⟨⟨trigger⟩, ⟨1⟩, true, .AgentStarted, 0, 0⟩]
  actions := []
  executionPolicy := {}
  workingDirectory := none
  environment := ∅
  version := 1
  createdAt := 0
  updatedAt := 0

/-- A version with another name and the same trigger is committed after the first query. -/
def renamedActions : List ReadAction :=
  [.save (versionOf "old" 2), .call, .queryTask, .save (versionOf "new" 2), .queryTriggers,
    .queryActions]

/-- The second version is committed before the first query. -/
def wholeActions : List ReadAction :=
  [.save (versionOf "old" 2), .call, .save (versionOf "new" 3), .queryTask, .queryTriggers,
    .queryActions]

/-- The second version is committed after the first query. -/
def tornActions : List ReadAction :=
  [.save (versionOf "old" 2), .call, .queryTask, .save (versionOf "new" 3), .queryTriggers,
    .queryActions]

instance (id : TaskId) (s : ReadState) : ∀ a, Decidable (ReadsFirst id s a)
  | .queryTriggers => inferInstanceAs (Decidable (∀ task ∈ s.first,
      s.db.triggersOf id = task.triggers))
  | .queryActions => inferInstanceAs (Decidable (∀ task ∈ s.first,
      s.db.actionsOf id = task.actions))
  | .save _ | .delete _ | .call | .queryTask => isTrue trivial

instance (id : TaskId) (s : ReadState) : ∀ a, Decidable (KeepsTask id s a)
  | .delete deleted => inferInstanceAs (Decidable (deleted ≠ id))
  | .save _ | .call | .queryTask | .queryTriggers | .queryActions => isTrue trivial

theorem renamedActions_possible :
    ((reader .empty ⟨1⟩).exec (ReadsFirst ⟨1⟩) (reader .empty ⟨1⟩).init renamedActions).isSome =
      true := by decide +kernel

theorem wholeActions_possible :
    ((reader .empty ⟨1⟩).exec (KeepsTask ⟨1⟩) (reader .empty ⟨1⟩).init wholeActions).isSome =
      true := by decide +kernel

theorem tornActions_possible :
    ((reader .empty ⟨1⟩).exec Machine.anyStep (reader .empty ⟨1⟩).init tornActions).isSome =
      true := by decide +kernel

def afterRenamed : ReadState :=
  (((reader .empty ⟨1⟩).exec (ReadsFirst ⟨1⟩) (reader .empty ⟨1⟩).init renamedActions).get
    renamedActions_possible).2

def afterWhole : ReadState :=
  (((reader .empty ⟨1⟩).exec (KeepsTask ⟨1⟩) (reader .empty ⟨1⟩).init wholeActions).get
    wholeActions_possible).2

def afterTorn : ReadState :=
  (((reader .empty ⟨1⟩).exec Machine.anyStep (reader .empty ⟨1⟩).init tornActions).get
    tornActions_possible).2

/-- The old version is read whole while only the name changes, and the new one where it is
    committed before the first query. -/
theorem findById_snapshot_whole :
    (∃ result, afterRenamed.phase = .returned (some result) ∧ result.name = "old" ∧
      some result ∈ afterRenamed.versions) ∧
    ∃ result, afterWhole.phase = .returned (some result) ∧ result.name = "new" ∧
      some result ∈ afterWhole.versions := by
  obtain ⟨hfirst, hkept⟩ := findById_snapshot .empty ⟨1⟩
  constructor
  · refine ⟨_, rfl, rfl, ?_⟩
    exact hfirst afterRenamed _ ⟨_, Machine.exec_get_run renamedActions_possible⟩ rfl
  · refine ⟨_, rfl, rfl, ?_⟩
    apply (hkept afterWhole _ ⟨_, Machine.exec_get_run wholeActions_possible⟩ rfl).mpr
    rfl

/-- The old name is read with the new trigger, which no stored version has. -/
theorem findById_torn : (reader .empty ⟨1⟩).Reachable Machine.anyStep afterTorn ∧
    ∃ result, afterTorn.phase = .returned (some result) ∧ result.name = "old" ∧
      result.triggers.map Trigger.id = [⟨3⟩] ∧ some result ∉ afterTorn.versions := by
  refine ⟨⟨_, Machine.exec_get_run tornActions_possible⟩, _, rfl, rfl, rfl, fun hmem => ?_⟩
  have hseen := List.mem_map_of_mem (f := fun version : Option Task =>
    version.map fun task => (task.name, task.triggers.map Trigger.id)) hmem
  revert hseen
  decide +kernel

end EasyJob.Persistence
