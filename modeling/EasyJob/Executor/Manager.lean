import EasyJob.Domain.Task

/-!
# The execution manager

Model of `crates/executor/src/manager.rs`: a semaphore with a permit for every
execution the agent may run at once, and a counter of admitted executions for
every task. `ExecutionManager.available` is the number of free permits; a permit
is held by whoever acquired it until it is dropped.

A counter is a `usize` that never exceeds the number of permits of the agent; it
is a natural number here.
-/

namespace EasyJob.Executor

open EasyJob.Domain

/-- `ExecutionManager`. -/
structure ExecutionManager where
  available : ℕ
  taskRunningCounts : HashMap TaskId ℕ

namespace ExecutionManager

/-- Model of `new` (lines 25–30). -/
def new (maxConcurrent : ℕ) : ExecutionManager := ⟨maxConcurrent, ∅⟩

/-- `global_semaphore().try_acquire_owned()`. -/
def tryAcquireOwned (m : ExecutionManager) : Option ExecutionManager :=
  if m.available = 0 then none else some { m with available := m.available - 1 }

/-- `drop` of a permit. -/
def dropPermit (m : ExecutionManager) : ExecutionManager :=
  { m with available := m.available + 1 }

/-- Model of `running_count` (lines 75–78). -/
def runningCount (m : ExecutionManager) (taskId : TaskId) : ℕ :=
  (m.taskRunningCounts.lookup taskId).getD 0

/-- Model of `total_running_count` (lines 80–83). -/
def totalRunningCount (m : ExecutionManager) : ℕ :=
  (m.taskRunningCounts.entries.map (·.2)).sum

/-- Whether a policy admits one more execution of a task with `count` running. -/
def admits (policy : ConcurrencyPolicy) (count : ℕ) : Bool :=
  match policy with
  | .AllowParallel => true
  | .SkipIfRunning => !(count > 0)
  | .QueueOne => !(count ≥ 2)

/-- Model of `try_acquire_slot` (lines 32–57). -/
def tryAcquireSlot (m : ExecutionManager) (taskId : TaskId) (policy : ConcurrencyPolicy) :
    Bool × ExecutionManager :=
  let count := m.runningCount taskId
  if admits policy count then
    (true, { m with taskRunningCounts := m.taskRunningCounts.insert taskId (count + 1) })
  else (false, { m with taskRunningCounts := m.taskRunningCounts.insert taskId count })

/-- Model of `release_slot` (lines 64–73). -/
def releaseSlot (m : ExecutionManager) (taskId : TaskId) : ExecutionManager :=
  match m.taskRunningCounts.lookup taskId with
  | none => m
  | some count =>
    let count := if count > 0 then count - 1 else count
    if count = 0 then { m with taskRunningCounts := m.taskRunningCounts.erase taskId }
    else { m with taskRunningCounts := m.taskRunningCounts.insert taskId count }

/-! ## The counter of a task -/

theorem runningCount_insert (m : ExecutionManager) (taskId id : TaskId) (count : ℕ) :
    ({ m with taskRunningCounts := m.taskRunningCounts.insert taskId count } :
      ExecutionManager).runningCount id = if id = taskId then count else m.runningCount id := by
  unfold runningCount
  split_ifs with hid
  · subst hid
    rw [AList.lookup_insert]
    rfl
  · rw [AList.lookup_insert_ne hid]

theorem runningCount_erase (m : ExecutionManager) (taskId id : TaskId) :
    ({ m with taskRunningCounts := m.taskRunningCounts.erase taskId } :
      ExecutionManager).runningCount id = if id = taskId then 0 else m.runningCount id := by
  unfold runningCount
  split_ifs with hid
  · subst hid
    rw [AList.lookup_erase]
    rfl
  · rw [AList.lookup_erase_ne hid]

/-- `try_acquire_slot` counts the execution exactly if it is admitted. -/
theorem runningCount_tryAcquireSlot (m : ExecutionManager) (taskId id : TaskId)
    (policy : ConcurrencyPolicy) :
    (m.tryAcquireSlot taskId policy).2.runningCount id =
      m.runningCount id +
        if id = taskId ∧ admits policy (m.runningCount taskId) = true then 1 else 0 := by
  unfold tryAcquireSlot
  dsimp only
  split_ifs with hadm hid hid
  · rw [runningCount_insert, if_pos hid.1, hid.1]
  · rw [runningCount_insert, if_neg fun h => hid ⟨h, hadm⟩, add_zero]
  · exact absurd hid.2 hadm
  · rw [runningCount_insert, add_zero]
    split_ifs with hid
    · rw [hid]
    · rfl

/-- `release_slot` takes one execution of the task off the counter, down to zero. -/
theorem runningCount_releaseSlot (m : ExecutionManager) (taskId id : TaskId) :
    (m.releaseSlot taskId).runningCount id =
      m.runningCount id - if id = taskId then 1 else 0 := by
  unfold releaseSlot
  cases hlookup : m.taskRunningCounts.lookup taskId with
  | none =>
    dsimp only
    by_cases hid : id = taskId
    · subst hid
      simp [runningCount, hlookup]
    · simp [hid]
  | some count =>
    have hcount : m.runningCount taskId = count := by simp [runningCount, hlookup]
    dsimp only
    by_cases hid : id = taskId
    · subst hid
      rw [hcount, if_pos rfl]
      have hnew : (if count > 0 then count - 1 else count) = count - 1 := by
        split_ifs <;> omega
      rw [hnew]
      split_ifs with hzero
      · rw [runningCount_erase, if_pos rfl, hzero]
      · rw [runningCount_insert, if_pos rfl]
    · split_ifs <;> simp [runningCount_erase, runningCount_insert, hid]

@[simp] theorem available_tryAcquireSlot (m : ExecutionManager) (taskId : TaskId)
    (policy : ConcurrencyPolicy) : (m.tryAcquireSlot taskId policy).2.available = m.available := by
  unfold tryAcquireSlot
  dsimp only
  split_ifs <;> rfl

@[simp] theorem available_releaseSlot (m : ExecutionManager) (taskId : TaskId) :
    (m.releaseSlot taskId).available = m.available := by
  unfold releaseSlot
  split
  · rfl
  · dsimp only
    split_ifs <;> rfl

theorem tryAcquireSlot_fst (m : ExecutionManager) (taskId : TaskId) (policy : ConcurrencyPolicy) :
    (m.tryAcquireSlot taskId policy).1 = admits policy (m.runningCount taskId) := by
  unfold tryAcquireSlot
  dsimp only
  split_ifs with hadm
  · exact hadm.symm
  · exact (Bool.eq_false_iff.mpr hadm).symm

/-! ## The sum of the counters -/

/-- The counters sum up to that of one task and those of the others. -/
theorem sum_entries_erase (counts : HashMap TaskId ℕ) (taskId : TaskId) :
    (counts.entries.map (·.2)).sum =
      (counts.lookup taskId).getD 0 + ((counts.erase taskId).entries.map (·.2)).sum := by
  unfold AList.lookup AList.erase
  dsimp only
  induction counts.entries with
  | nil => rfl
  | cons x xs ih =>
    by_cases hid : taskId = x.1
    · subst hid
      rw [List.dlookup_cons_eq, List.kerase_cons_eq rfl, List.map_cons, List.sum_cons]
      rfl
    · rw [List.dlookup_cons_ne _ _ hid, List.kerase_cons_ne hid, List.map_cons, List.map_cons,
        List.sum_cons, List.sum_cons, ih]
      omega

theorem sum_entries_insert (counts : HashMap TaskId ℕ) (taskId : TaskId) (count : ℕ) :
    ((counts.insert taskId count).entries.map (·.2)).sum + (counts.lookup taskId).getD 0 =
      count + (counts.entries.map (·.2)).sum := by
  have hins : (counts.insert taskId count).entries =
      ⟨taskId, count⟩ :: (counts.erase taskId).entries := rfl
  rw [hins, sum_entries_erase counts taskId, List.map_cons, List.sum_cons]
  dsimp only
  omega

theorem totalRunningCount_tryAcquireSlot (m : ExecutionManager) (taskId : TaskId)
    (policy : ConcurrencyPolicy) :
    (m.tryAcquireSlot taskId policy).2.totalRunningCount =
      m.totalRunningCount + if admits policy (m.runningCount taskId) = true then 1 else 0 := by
  have hsum := sum_entries_insert m.taskRunningCounts taskId
  unfold tryAcquireSlot totalRunningCount
  dsimp only
  unfold runningCount at *
  split_ifs with hadm
  · have h := hsum ((m.taskRunningCounts.lookup taskId).getD 0 + 1)
    dsimp only
    omega
  · have h := hsum ((m.taskRunningCounts.lookup taskId).getD 0)
    dsimp only
    omega

theorem totalRunningCount_releaseSlot {m : ExecutionManager} {taskId : TaskId}
    (h : 0 < m.runningCount taskId) :
    (m.releaseSlot taskId).totalRunningCount = m.totalRunningCount - 1 := by
  unfold runningCount at h
  cases hlookup : m.taskRunningCounts.lookup taskId with
  | none => simp [hlookup] at h
  | some count =>
    rw [hlookup, Option.getD_some] at h
    have hrel : m.releaseSlot taskId =
        if count - 1 = 0 then { m with taskRunningCounts := m.taskRunningCounts.erase taskId }
        else { m with taskRunningCounts := m.taskRunningCounts.insert taskId (count - 1) } := by
      unfold releaseSlot
      simp only [hlookup, if_pos h]
    rw [hrel]
    split_ifs with hzero
    · have hsum := sum_entries_erase m.taskRunningCounts taskId
      rw [hlookup, Option.getD_some] at hsum
      unfold totalRunningCount
      dsimp only
      omega
    · have hsum := sum_entries_insert m.taskRunningCounts taskId (count - 1)
      rw [hlookup, Option.getD_some] at hsum
      unfold totalRunningCount
      dsimp only
      omega

end ExecutionManager

end EasyJob.Executor
